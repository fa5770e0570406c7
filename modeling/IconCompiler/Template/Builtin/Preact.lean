import IconCompiler.Template.Builtin.Parts

/-! Preact function components. -/

namespace IconCompiler.Template.Builtin.Preact

open Text (lines)

def component : List Part :=
  factoryComponent

def runtime : List Part :=
  [.text (lines [r"import { h } from 'preact'"]),
   whenTyped (lines
      [r"import type { ComponentChildren, JSX, VNode } from 'preact'",
       "",
       "export type IconNode = [string, Record<string, string | number>, IconNode[]?]",
       "",
       r"export interface IconProps extends Omit<JSX.SVGAttributes<SVGSVGElement>, 'color'> {",
       "  size?: number | string",
       "  color?: string",
       "  strokeWidth?: number | string",
       "  class?: string",
       "  className?: string",
       "  title?: string",
       "  'aria-label'?: string",
       "  'aria-hidden'?: boolean | 'true' | 'false'",
       "  children?: ComponentChildren",
       r"}"]),
   .text (lines
      ["",
       "const BASE_CLASS = 'vectify-icon'",
       ""] ++ "function resolve(value"),
   whenTyped ": string | number", .text ", color", whenTyped ": string", .text ", strokeWidth",
   whenTyped ": number | string",
   .text (lines
      [r") {",
       "  if (value === '$color') return color",
       "  if (value === '$strokeWidth') return strokeWidth",
       "  return value",
       r"}",
       ""] ++ "function renderNode(node"),
   whenTyped ": IconNode", .text ", key", whenTyped ": number", .text ", color",
   whenTyped ": string", .text ", strokeWidth", whenTyped ": number | string", .text ")",
   whenTyped ": VNode",
   .text (lines
      [r" {",
       "  const [type, attrs, children] = node"] ++ "  const props"),
   whenTyped ": Record<string, unknown>",
   .text (lines
      [r" = { key }",
       r"  for (const [name, value] of Object.entries(attrs)) {",
       "    props[name] = resolve(value, color, strokeWidth)",
       r"  }",
       "  return h(",
       "    type,",
       "    props,",
       "    children?.map((child, index) => renderNode(child, index, color, strokeWidth)),",
       "  )",
       r"}",
       ""] ++ "export function createIcon(name"),
   whenTyped ": string", .text ", iconNode", whenTyped ": IconNode[]",
   .text (lines
      [r") {",
       r"  const Icon = ({",
       "    size = 24,",
       "    color = 'currentColor',",
       "    strokeWidth = 2,",
       "    class: classAttr,",
       "    className,",
       "    title,",
       "    children,",
       "    ...rest"] ++ r"  }"),
   whenTyped ": IconProps",
   .text (lines
      [r") => {",
       "    const labelled = Boolean(title || rest['aria-label'])",
       "    const extra = [classAttr, className].filter(Boolean).join(' ')",
       "",
       "    return h(",
       "      'svg',",
       r"      {",
       "        xmlns: 'http://www.w3.org/2000/svg',",
       "        width: size,",
       "        height: size,",
       "        viewBox: '0 0 24 24',",
       "        role: labelled ? 'img' : undefined,",
       "        ...rest,",
       "        'aria-hidden': rest['aria-hidden'] ?? !labelled,",
       r"        class: extra ? `${BASE_CLASS} ${extra}` : BASE_CLASS,",
       "        'data-icon': name,",
       r"      },",
       "      title ? h('title', null, title) : null,",
       "      ...iconNode.map((node, index) => renderNode(node, index, color, strokeWidth)),",
       "      children,",
       "    )",
       r"  }",
       "",
       "  Icon.displayName = name",
       "  return Icon",
       r"}"])]

end IconCompiler.Template.Builtin.Preact
