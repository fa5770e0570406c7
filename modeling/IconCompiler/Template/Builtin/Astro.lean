import IconCompiler.Template.Builtin.Parts

/-! Astro single-file components. -/

namespace IconCompiler.Template.Builtin.Astro

open Text (lines)

def component : List Part :=
  [.text (lines
      ["---",
       "import Icon from './Icon.astro'"]),
   whenTyped (lines [r"import type { IconNode } from './Icon.astro'"]),
   .text (lines [""] ++ "const iconNode"), whenTyped ": IconNode[]", .text (lines [" = ["]),
   formattedNodes,
   .text (lines
      ["",
       "]",
       "---",
       ""] ++ r#"<Icon name=""#),
   componentName, .text (lines [r#"" iconNode={iconNode} {...Astro.props} />"#])]

def runtime : List Part :=
  [.text (lines ["---"]),
   whenTyped (lines
      ["export type IconNode = [string, Record<string, string | number>, IconNode[]?]",
       "",
       r"export interface Props {",
       "  name: string",
       "  iconNode: IconNode[]",
       "  size?: number | string",
       "  color?: string",
       "  strokeWidth?: number | string",
       "  class?: string",
       "  title?: string",
       "  'aria-label'?: string",
       "  'aria-hidden'?: boolean | 'true' | 'false'",
       "  [key: string]: unknown",
       r"}",
       ""]),
   .text (lines
      [r"const {",
       "  name,",
       "  iconNode,",
       "  size = 24,",
       "  color = 'currentColor',",
       "  strokeWidth = 2,",
       "  class: className,",
       "  title,",
       "  ...rest"] ++ r"} = Astro.props"),
   whenTyped " as Props",
   .text (lines
      ["",
       "",
       "const BASE_CLASS = 'vectify-icon'",
       "const labelled = Boolean(title || rest['aria-label'])",
       ""] ++ "function escape(text"),
   whenTyped ": string",
   .text (lines
      [r") {",
       "  return text",
       "    .replace(/&/g, '&amp;')",
       "    .replace(/</g, '&lt;')",
       "    .replace(/>/g, '&gt;')",
       r#"    .replace(/"/g, '&quot;')"#,
       r"}",
       ""] ++ "function resolve(value"),
   whenTyped ": string | number",
   .text (lines
      [r") {",
       "  if (value === '$color') return color",
       "  if (value === '$strokeWidth') return strokeWidth",
       "  return value",
       r"}",
       ""] ++ "function toMarkup(nodes"),
   whenTyped ": IconNode[]", .text ")", whenTyped ": string",
   .text (lines
      [r" {",
       "  return nodes",
       r"    .map(([type, attrs, children]) => {",
       "      const rendered = Object.entries(attrs)",
       r#"        .map(([key, value]) => ` ${key}="${escape(String(resolve(value)))}"`)"#,
       "        .join('')",
       "      return children?.length",
       r"        ? `<${type}${rendered}>${toMarkup(children)}</${type}>`",
       r"        : `<${type}${rendered}/>`",
       r"    })",
       "    .join('')",
       r"}",
       "",
       r"const markup = (title ? `<title>${escape(title)}</title>` : '') + toMarkup(iconNode)",
       "---",
       "",
       "<svg",
       r#"  xmlns="http://www.w3.org/2000/svg""#,
       r"  width={size}",
       r"  height={size}",
       r#"  viewBox="0 0 24 24""#,
       r"  role={labelled ? 'img' : undefined}",
       r"  {...rest}",
       r"  aria-hidden={rest['aria-hidden'] ?? !labelled}",
       r"  class={className ? `${BASE_CLASS} ${className}` : BASE_CLASS}",
       r"  data-icon={name}",
       r"  set:html={markup}",
       "/>"])]

end IconCompiler.Template.Builtin.Astro
