import IconCompiler.Template.Builtin.Parts

/-! React function components. -/

namespace IconCompiler.Template.Builtin.React

open Text (lines)

def component : List Part :=
  factoryComponent

def runtime : List Part :=
  [.text (lines [r"import { createElement, forwardRef } from 'react'"]),
   whenTyped (lines
      [r"import type { ReactNode, SVGProps } from 'react'",
       "",
       "export type IconNode = [string, Record<string, string | number>, IconNode[]?]",
       "",
       r"export interface IconProps extends Omit<SVGProps<SVGSVGElement>, 'color'> {",
       "  size?: number | string",
       "  color?: string",
       "  strokeWidth?: number | string",
       "  className?: string",
       "  title?: string",
       "  'aria-label'?: string",
       "  'aria-hidden'?: boolean | 'true' | 'false'",
       r"}"]),
   .text (lines
      ["",
       "const BASE_CLASS = 'vectify-icon'",
       ""] ++ "function resolve(value"),
   whenTyped ": string | number", .text ", color", whenTyped ": string", .text ", strokeWidth",
   whenTyped ": number | string",
   .text (lines
      [r") {",
       "  if (value === '$color') return color",
       "  if (value === '$strokeWidth') return strokeWidth",
       "  return value",
       r"}",
       ""] ++ "function renderNode(node"),
   whenTyped ": IconNode", .text ", key", whenTyped ": number", .text ", color",
   whenTyped ": string", .text ", strokeWidth", whenTyped ": number | string", .text ")",
   whenTyped ": ReactNode",
   .text (lines
      [r" {",
       "  const [type, attrs, children] = node"] ++ "  const props"),
   whenTyped ": Record<string, unknown>",
   .text (lines
      [r" = { key }",
       r"  for (const [name, value] of Object.entries(attrs)) {",
       "    props[name] = resolve(value, color, strokeWidth)",
       r"  }",
       "  return createElement(",
       "    type,",
       "    props,",
       "    children?.map((child, index) => renderNode(child, index, color, strokeWidth)),",
       "  )",
       r"}",
       ""] ++ "export function createIcon(name"),
   whenTyped ": string", .text ", iconNode", whenTyped ": IconNode[]",
   .text (lines [r") {"] ++ "  const Icon = forwardRef"),
   whenTyped "<SVGSVGElement, IconProps>",
   .text (lines
      ["(function Icon(",
       r"    { size = 24, color = 'currentColor', strokeWidth = 2, className, title, children, ...rest },",
       "    ref,",
       r"  ) {",
       "    const labelled = Boolean(title || rest['aria-label'])",
       "",
       "    return createElement(",
       "      'svg',",
       r"      {",
       "        ref,",
       "        xmlns: 'http://www.w3.org/2000/svg',",
       "        width: size,",
       "        height: size,",
       "        viewBox: '0 0 24 24',",
       "        role: labelled ? 'img' : undefined,",
       "        ...rest,",
       "        'aria-hidden': rest['aria-hidden'] ?? !labelled,",
       r"        className: className ? `${BASE_CLASS} ${className}` : BASE_CLASS,",
       "        'data-icon': name,",
       r"      },",
       "      title ? createElement('title', null, title) : null,",
       "      ...iconNode.map((node, index) => renderNode(node, index, color, strokeWidth)),",
       "      children,",
       "    )",
       r"  })",
       "",
       "  Icon.displayName = name",
       "  return Icon",
       r"}"])]

end IconCompiler.Template.Builtin.React
