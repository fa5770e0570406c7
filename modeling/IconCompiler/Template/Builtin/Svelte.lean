import IconCompiler.Template.Builtin.Parts

/-! Svelte single-file components. -/

namespace IconCompiler.Template.Builtin.Svelte

open Text (lines)

def component : List Part :=
  [.text "<script", whenTyped r#" lang="ts""#,
   .text (lines
      [">",
       "  import Icon from './Icon.svelte'"]),
   whenTyped (lines [r"  import type { IconNode } from './Icon.svelte'"]),
   .text (lines [""] ++ "  const iconNode"), whenTyped ": IconNode[]", .text (lines [" = ["]),
   formattedNodes,
   .text (lines
      ["",
       "  ]",
       "</script>",
       ""] ++ r#"<Icon name=""#),
   componentName, .text (lines [r#"" {iconNode} {...$$props} />"#])]

def runtime : List Part :=
  [whenTyped (lines
      [r#"<script context="module" lang="ts">"#,
       "  export type IconNode = [string, Record<string, string | number>, IconNode[]?]",
       "</script>",
       ""]),
   .text "<script", whenTyped r#" lang="ts""#, .text (lines [">"] ++ "  export let name"),
   whenTyped ": string", .text (lines [""] ++ "  export let iconNode"),
   whenTyped ": IconNode[]", .text (lines [""] ++ "  export let size"),
   whenTyped ": number | string",
   .text (lines
      [" = 24",
       "  export let color = 'currentColor'"] ++ "  export let strokeWidth"),
   whenTyped ": number | string", .text (lines [" = 2"] ++ "  export let title"),
   whenTyped ": string | undefined",
   .text (lines
      [" = undefined",
       "  let className = ''",
       r"  export { className as class }",
       "",
       "  const BASE_CLASS = 'vectify-icon'",
       ""] ++ "  function escape(text"),
   whenTyped ": string",
   .text (lines
      [r") {",
       "    return text",
       "      .replace(/&/g, '&amp;')",
       "      .replace(/</g, '&lt;')",
       "      .replace(/>/g, '&gt;')",
       r#"      .replace(/"/g, '&quot;')"#,
       r"  }",
       ""] ++ "  function resolve(value"),
   whenTyped ": string | number",
   .text (lines
      [r") {",
       "    if (value === '$color') return color",
       "    if (value === '$strokeWidth') return strokeWidth",
       "    return value",
       r"  }",
       ""] ++ "  function toMarkup(nodes"),
   whenTyped ": IconNode[]", .text ")", whenTyped ": string",
   .text (lines
      [r" {",
       "    return nodes",
       r"      .map(([type, attrs, children]) => {",
       "        const rendered = Object.entries(attrs)",
       r#"          .map(([key, value]) => ` ${key}="${escape(String(resolve(value)))}"`)"#,
       "          .join('')",
       "        return children?.length",
       r"          ? `<${type}${rendered}>${toMarkup(children)}</${type}>`",
       r"          : `<${type}${rendered}/>`",
       r"      })",
       "      .join('')",
       r"  }",
       "",
       "  $: labelled = Boolean(title || $$restProps['aria-label'])",
       r"  $: markup = (title ? `<title>${escape(title)}</title>` : '') + toMarkup(iconNode)",
       "</script>",
       "",
       "<svg",
       r#"  xmlns="http://www.w3.org/2000/svg""#,
       r"  width={size}",
       r"  height={size}",
       r#"  viewBox="0 0 24 24""#,
       r"  role={labelled ? 'img' : undefined}",
       r"  {...$$restProps}",
       r"  aria-hidden={$$restProps['aria-hidden'] ?? !labelled}",
       r"  class={className ? `${BASE_CLASS} ${className}` : BASE_CLASS}",
       r"  data-icon={name}",
       ">",
       r"  {@html markup}",
       "</svg>"])]

end IconCompiler.Template.Builtin.Svelte
