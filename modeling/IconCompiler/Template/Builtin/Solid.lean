import IconCompiler.Template.Builtin.Parts

/-! Solid function components. -/

namespace IconCompiler.Template.Builtin.Solid

open Text (lines)

def component : List Part :=
  factoryComponent

def runtime : List Part :=
  [.text (lines
      [r"import { For, Show, splitProps } from 'solid-js'",
       r"import { Dynamic } from 'solid-js/web'"]),
   whenTyped (lines
      [r"import type { JSX } from 'solid-js'",
       "",
       "export type IconNode = [string, Record<string, string | number>, IconNode[]?]",
       "",
       r"export interface IconProps extends Omit<JSX.SvgSVGAttributes<SVGSVGElement>, 'color'> {",
       "  size?: number | string",
       "  color?: string",
       "  strokeWidth?: number | string",
       "  class?: string",
       "  title?: string",
       "  'aria-label'?: string",
       "  'aria-hidden'?: boolean | 'true' | 'false'",
       r"}",
       "",
       r"interface NodeProps {",
       "  node: IconNode",
       "  color: string",
       "  strokeWidth: number | string",
       r"}"]),
   .text (lines
      ["",
       "const BASE_CLASS = 'vectify-icon'",
       ""] ++ "function resolve(value"),
   whenTyped ": string | number", .text ", color", whenTyped ": string", .text ", strokeWidth",
   whenTyped ": number | string",
   .text (lines
      [r") {",
       "  if (value === '$color') return color",
       "  if (value === '$strokeWidth') return strokeWidth",
       "  return value",
       r"}",
       ""] ++ "function IconElement(props"),
   whenTyped ": NodeProps",
   .text (lines
      [r") {",
       "  const attrs = () =>",
       "    Object.fromEntries(",
       "      Object.entries(props.node[1]).map(([name, value]) => [",
       "        name,",
       "        resolve(value, props.color, props.strokeWidth),",
       "      ]),",
       "    )",
       "",
       "  return (",
       r"    <Dynamic component={props.node[0]} {...attrs()}>",
       r"      <For each={props.node[2] ?? []}>",
       r"        {child => <IconElement node={child} color={props.color} strokeWidth={props.strokeWidth} />}",
       "      </For>",
       "    </Dynamic>",
       "  )",
       r"}",
       ""] ++ "export function createIcon(name"),
   whenTyped ": string", .text ", iconNode", whenTyped ": IconNode[]",
   .text (lines [r") {"] ++ "  return (props"), whenTyped ": IconProps",
   .text (lines
      [r") => {",
       "    const [local, rest] = splitProps(props, ['size', 'color', 'strokeWidth', 'class', 'title'])",
       "",
       "    const size = () => local.size ?? 24",
       "    const color = () => local.color ?? 'currentColor'",
       "    const strokeWidth = () => local.strokeWidth ?? 2",
       "    const labelled = () => Boolean(local.title || rest['aria-label'])",
       "",
       "    return (",
       "      <svg",
       r#"        xmlns="http://www.w3.org/2000/svg""#,
       r"        width={size()}",
       r"        height={size()}",
       r#"        viewBox="0 0 24 24""#,
       r"        role={labelled() ? 'img' : undefined}",
       r"        {...rest}",
       r"        aria-hidden={rest['aria-hidden'] ?? !labelled()}",
       r"        class={local.class ? `${BASE_CLASS} ${local.class}` : BASE_CLASS}",
       r"        data-icon={name}",
       "      >",
       r"        <Show when={local.title}>",
       r"          <title>{local.title}</title>",
       "        </Show>",
       r"        <For each={iconNode}>",
       r"          {node => <IconElement node={node} color={color()} strokeWidth={strokeWidth()} />}",
       "        </For>",
       "      </svg>",
       "    )",
       r"  }",
       r"}"])]

end IconCompiler.Template.Builtin.Solid
