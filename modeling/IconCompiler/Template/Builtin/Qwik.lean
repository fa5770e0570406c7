import IconCompiler.Template.Builtin.Parts

/-! Qwik function components. -/

namespace IconCompiler.Template.Builtin.Qwik

open Text (lines)

def component : List Part :=
  factoryComponent

def runtime : List Part :=
  [.text (lines [r"import { component$ } from '@builder.io/qwik'"]),
   whenTyped (lines
      [r"import type { JSXOutput } from '@builder.io/qwik'",
       "",
       "export type IconNode = [string, Record<string, string | number>, IconNode[]?]",
       "",
       r"export interface IconProps {",
       "  size?: number | string",
       "  color?: string",
       "  strokeWidth?: number | string",
       "  class?: string",
       "  title?: string",
       "  'aria-label'?: string",
       "  'aria-hidden'?: boolean | 'true' | 'false'",
       "  [key: string]: unknown",
       r"}"]),
   .text (lines
      ["",
       "const BASE_CLASS = 'vectify-icon'",
       ""] ++ "function resolve(value"),
   whenTyped ": string | number", .text ", color", whenTyped ": string", .text ", strokeWidth",
   whenTyped ": number | string",
   .text (lines
      [r") {",
       "  if (value === '$color') return color",
       "  if (value === '$strokeWidth') return strokeWidth",
       "  return value",
       r"}",
       ""] ++ "function renderNode(node"),
   whenTyped ": IconNode", .text ", key", whenTyped ": number", .text ", color",
   whenTyped ": string", .text ", strokeWidth", whenTyped ": number | string", .text ")",
   whenTyped ": JSXOutput",
   .text (lines
      [r" {",
       "  const [type, attrs, children] = node"] ++ "  const Tag = type"),
   whenTyped " as any", .text (lines [""] ++ "  const props"),
   whenTyped ": Record<string, unknown>",
   .text (lines
      [r" = {}",
       r"  for (const [name, value] of Object.entries(attrs)) {",
       "    props[name] = resolve(value, color, strokeWidth)",
       r"  }",
       "",
       "  return (",
       r"    <Tag key={key} {...props}>",
       r"      {children?.map((child, index) => renderNode(child, index, color, strokeWidth))}",
       "    </Tag>",
       "  )",
       r"}",
       ""] ++ "export function createIcon(name"),
   whenTyped ": string", .text ", iconNode", whenTyped ": IconNode[]",
   .text (lines [r") {"] ++ "  return component$((props"), whenTyped ": IconProps",
   .text (lines
      [r") => {",
       r"    const {",
       "      size = 24,",
       "      color = 'currentColor',",
       "      strokeWidth = 2,",
       "      class: className,",
       "      title,",
       "      ...rest",
       r"    } = props",
       "    const labelled = Boolean(title || rest['aria-label'])",
       "",
       "    return (",
       "      <svg",
       r#"        xmlns="http://www.w3.org/2000/svg""#,
       r"        width={size}",
       r"        height={size}",
       r#"        viewBox="0 0 24 24""#,
       r"        role={labelled ? 'img' : undefined}",
       r"        {...rest}",
       r"        aria-hidden={rest['aria-hidden'] ?? !labelled}",
       r"        class={className ? `${BASE_CLASS} ${className}` : BASE_CLASS}",
       r"        data-icon={name}",
       "      >",
       r"        {title && <title>{title}</title>}",
       r"        {iconNode.map((node, index) => renderNode(node, index, color, strokeWidth))}",
       "      </svg>",
       "    )",
       r"  })",
       r"}"])]

end IconCompiler.Template.Builtin.Qwik
