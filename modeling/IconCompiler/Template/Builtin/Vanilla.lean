import IconCompiler.Template.Builtin.Parts

/-! Functions that build DOM nodes, without a framework. -/

namespace IconCompiler.Template.Builtin.Vanilla

open Text (lines)

def component : List Part :=
  [.text (lines [r"import { createIcon } from './createIcon'"]),
   whenTyped (lines [r"import type { IconNode } from './createIcon'"]),
   .text (lines [""] ++ "const iconNode"), whenTyped ": IconNode[]", .text (lines [" = ["]),
   formattedNodes,
   .text (lines
      ["",
       "]",
       "",
       r"/** Renders the icon into `container` and returns the created `<svg>`. */"] ++ "export const "),
   componentName, .text " = createIcon('", componentName, .text (lines ["', iconNode)"])]

def runtime : List Part :=
  [whenTyped (lines
      ["export type IconNode = [string, Record<string, string | number>, IconNode[]?]",
       "",
       r"export interface IconOptions {",
       "  size?: number | string",
       "  color?: string",
       "  strokeWidth?: number | string",
       "  class?: string",
       "  title?: string",
       "  'aria-label'?: string",
       "  'aria-hidden'?: boolean | 'true' | 'false'",
       "  [attribute: string]: unknown",
       r"}",
       ""]),
   .text (lines
      ["const SVG_NS = 'http://www.w3.org/2000/svg'",
       "const BASE_CLASS = 'vectify-icon'",
       ""] ++ "function createNode(node"),
   whenTyped ": IconNode", .text ", color", whenTyped ": string", .text ", strokeWidth",
   whenTyped ": number | string", .text ")", whenTyped ": SVGElement",
   .text (lines
      [r" {",
       "  const [type, attrs, children] = node",
       "  const element = document.createElementNS(SVG_NS, type)",
       r"  for (const [name, value] of Object.entries(attrs)) {",
       "    const resolved = value === '$color' ? color : value === '$strokeWidth' ? strokeWidth : value",
       "    element.setAttribute(name, String(resolved))",
       r"  }",
       r"  for (const child of children ?? []) {",
       "    element.appendChild(createNode(child, color, strokeWidth))",
       r"  }",
       "  return element",
       r"}",
       ""] ++ "export function createIcon(name"),
   whenTyped ": string", .text ", iconNode", whenTyped ": IconNode[]",
   .text (lines [r") {"] ++ "  return function mount(container"), whenTyped ": Element",
   .text ", options", whenTyped ": IconOptions", .text r" = {})", whenTyped ": SVGSVGElement",
   .text (lines
      [r" {",
       r"    const {",
       "      size = 24,",
       "      color = 'currentColor',",
       "      strokeWidth = 2,",
       "      class: className,",
       "      title,",
       "      ...rest",
       r"    } = options",
       "    const labelled = Boolean(title || rest['aria-label'])",
       "    const svg = document.createElementNS(SVG_NS, 'svg')",
       "",
       "    svg.setAttribute('xmlns', SVG_NS)",
       "    svg.setAttribute('width', String(size))",
       "    svg.setAttribute('height', String(size))",
       "    svg.setAttribute('viewBox', '0 0 24 24')",
       r"    if (labelled) {",
       "      svg.setAttribute('role', 'img')",
       r"    }",
       r"    for (const [attribute, value] of Object.entries(rest)) {",
       r"      if (value !== undefined) {",
       "        svg.setAttribute(attribute, String(value))",
       r"      }",
       r"    }",
       "    svg.setAttribute('aria-hidden', String(rest['aria-hidden'] ?? !labelled))",
       r"    svg.setAttribute('class', className ? `${BASE_CLASS} ${className}` : BASE_CLASS)",
       "    svg.setAttribute('data-icon', name)",
       "",
       r"    if (title) {",
       "      const titleElement = document.createElementNS(SVG_NS, 'title')",
       "      titleElement.textContent = title",
       "      svg.appendChild(titleElement)",
       r"    }",
       r"    for (const node of iconNode) {",
       "      svg.appendChild(createNode(node, color, strokeWidth))",
       r"    }",
       "",
       "    container.appendChild(svg)",
       "    return svg",
       r"  }",
       r"}"])]

end IconCompiler.Template.Builtin.Vanilla
