import IconCompiler.Template.Builtin.Parts

/-! Vue single-file components. -/

namespace IconCompiler.Template.Builtin.Vue

open Text (lines)

def component : List Part :=
  [.text "<script setup", whenTyped r#" lang="ts""#,
   .text (lines
      [">",
       "import Icon from './Icon.vue'"]),
   whenTyped (lines [r"import type { IconNode } from './Icon.vue'"]),
   .text (lines [""] ++ "const iconNode"), whenTyped ": IconNode[]", .text (lines [" = ["]),
   formattedNodes,
   .text (lines
      ["",
       "]",
       "</script>",
       "",
       "<template>"] ++ r#"  <Icon name=""#),
   componentName,
   .text (lines
      [r#"" :icon-node="iconNode" />"#,
       "</template>"])]

def runtime : List Part :=
  [.text "<script", whenTyped r#" lang="ts""#,
   .text (lines
      [">",
       r"import { defineComponent, h } from 'vue'"]),
   whenTyped (lines
      [r"import type { PropType, VNode } from 'vue'",
       "",
       "export type IconNode = [string, Record<string, string | number>, IconNode[]?]"]),
   .text (lines
      ["",
       "const BASE_CLASS = 'vectify-icon'",
       ""] ++ "function resolve(value"),
   whenTyped ": string | number", .text ", color", whenTyped ": string", .text ", strokeWidth",
   whenTyped ": number | string",
   .text (lines
      [r") {",
       "  if (value === '$color') return color",
       "  if (value === '$strokeWidth') return strokeWidth",
       "  return value",
       r"}",
       ""] ++ "function renderNode(node"),
   whenTyped ": IconNode", .text ", color", whenTyped ": string", .text ", strokeWidth",
   whenTyped ": number | string", .text ")", whenTyped ": VNode",
   .text (lines
      [r" {",
       "  const [type, attrs, children] = node"] ++ "  const props"),
   whenTyped ": Record<string, unknown>",
   .text (lines
      [r" = {}",
       r"  for (const [name, value] of Object.entries(attrs)) {",
       "    props[name] = resolve(value, color, strokeWidth)",
       r"  }",
       "  return h(type, props, children?.map(child => renderNode(child, color, strokeWidth)))",
       r"}",
       "",
       r"export default defineComponent({",
       "  name: 'VectifyIcon',",
       "  inheritAttrs: false,",
       r"  props: {",
       r"    name: { type: String, required: true },"] ++ r"    iconNode: { type: Array"),
   whenTyped " as PropType<IconNode[]>",
   .text (lines
      [r", required: true },",
       r"    size: { type: [Number, String], default: 24 },",
       r"    color: { type: String, default: 'currentColor' },",
       r"    strokeWidth: { type: [Number, String], default: 2 },",
       r"    title: { type: String, default: undefined },",
       r"  },",
       r"  setup(props, { attrs }) {",
       r"    return () => {",
       "      const labelled = Boolean(props.title || attrs['aria-label'])",
       "",
       "      return h(",
       "        'svg',",
       r"        {",
       "          xmlns: 'http://www.w3.org/2000/svg',",
       "          width: props.size,",
       "          height: props.size,",
       "          viewBox: '0 0 24 24',",
       "          role: labelled ? 'img' : undefined,",
       "          ...attrs,",
       "          'aria-hidden': attrs['aria-hidden'] ?? !labelled,",
       "          class: [BASE_CLASS, attrs.class],",
       "          'data-icon': props.name,",
       r"        },",
       "        [",
       "          props.title ? h('title', props.title) : null,",
       "          ...props.iconNode.map(node => renderNode(node, props.color, props.strokeWidth)),",
       "        ],",
       "      )",
       r"    }",
       r"  },",
       r"})",
       "</script>"])]

end IconCompiler.Template.Builtin.Vue
