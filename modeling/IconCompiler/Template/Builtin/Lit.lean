import IconCompiler.Template.Builtin.Parts

/-! Lit custom elements. -/

namespace IconCompiler.Template.Builtin.Lit

open Text (lines)

def component : List Part :=
  [.text (lines [r"import { createIcon } from './createIcon'"]),
   whenTyped (lines [r"import type { IconNode } from './createIcon'"]),
   .text (lines [""] ++ "const iconNode"), whenTyped ": IconNode[]", .text (lines [" = ["]),
   formattedNodes,
   .text (lines
      ["",
       "]",
       ""] ++ r"/** Registers `<"),
   tagName, .text (lines [r">`. */"] ++ "export const "), componentName,
   .text " = createIcon('", componentName, .text "', '", tagName,
   .text (lines ["', iconNode)"])]

def runtime : List Part :=
  [.text (lines
      [r"import { LitElement, html } from 'lit'",
       r"import { unsafeSVG } from 'lit/directives/unsafe-svg.js'"]),
   whenTyped (lines
      ["",
       "export type IconNode = [string, Record<string, string | number>, IconNode[]?]"]),
   .text (lines
      ["",
       "const BASE_CLASS = 'vectify-icon'",
       ""] ++ "function escape(text"),
   whenTyped ": string",
   .text (lines
      [r") {",
       "  return text",
       "    .replace(/&/g, '&amp;')",
       "    .replace(/</g, '&lt;')",
       "    .replace(/>/g, '&gt;')",
       r#"    .replace(/"/g, '&quot;')"#,
       r"}",
       ""] ++ "function toMarkup(nodes"),
   whenTyped ": IconNode[]", .text ", color", whenTyped ": string", .text ", strokeWidth",
   whenTyped ": number | string", .text ")", whenTyped ": string",
   .text (lines
      [r" {",
       "  return nodes",
       r"    .map(([type, attrs, children]) => {",
       "      const rendered = Object.entries(attrs)",
       r"        .map(([key, value]) => {",
       "          const resolved = value === '$color' ? color : value === '$strokeWidth' ? strokeWidth : value",
       r#"          return ` ${key}="${escape(String(resolved))}"`"#,
       r"        })",
       "        .join('')",
       "      return children?.length",
       r"        ? `<${type}${rendered}>${toMarkup(children, color, strokeWidth)}</${type}>`",
       r"        : `<${type}${rendered}/>`",
       r"    })",
       "    .join('')",
       r"}",
       ""] ++ "export function createIcon(name"),
   whenTyped ": string", .text ", tagName", whenTyped ": string", .text ", iconNode",
   whenTyped ": IconNode[]",
   .text (lines
      [r") {",
       r"  class VectifyIcon extends LitElement {",
       r"    static properties = {",
       r"      size: { type: String },",
       r"      color: { type: String },",
       r"      strokeWidth: { type: String, attribute: 'stroke-width' },",
       r"      iconClass: { type: String, attribute: 'icon-class' },",
       r"      title: { type: String },",
       r"      iconLabel: { type: String, attribute: 'aria-label' },",
       r"      iconHidden: { type: String, attribute: 'aria-hidden' },",
       r"    }",
       ""]),
   whenTyped (lines
      ["    declare size: number | string",
       "    declare color: string",
       "    declare strokeWidth: number | string",
       "    declare iconClass: string",
       "    declare title: string",
       "    declare iconLabel: string | null",
       "    declare iconHidden: string | null",
       ""]),
   .text (lines
      [r"    constructor() {",
       "      super()",
       "      this.size = 24",
       "      this.color = 'currentColor'",
       "      this.strokeWidth = 2",
       "      this.iconClass = ''",
       "      this.title = ''",
       "      this.iconLabel = null",
       "      this.iconHidden = null",
       r"    }",
       "",
       r"    render() {",
       "      const labelled = Boolean(this.title || this.iconLabel)",
       "      const ariaHidden = this.iconHidden ?? String(!labelled)",
       r"      const title = this.title ? `<title>${escape(this.title)}</title>` : ''",
       r"      const className = this.iconClass ? `${BASE_CLASS} ${this.iconClass}` : BASE_CLASS",
       "",
       r"      return html`<svg",
       r#"        xmlns="http://www.w3.org/2000/svg""#,
       r"        width=${this.size}",
       r"        height=${this.size}",
       r#"        viewBox="0 0 24 24""#,
       r"        role=${labelled ? 'img' : 'presentation'}",
       r"        aria-hidden=${ariaHidden}",
       r"        class=${className}",
       r"        data-icon=${name}",
       r"      >${unsafeSVG(title + toMarkup(iconNode, this.color, this.strokeWidth))}</svg>`",
       r"    }",
       r"  }",
       "",
       r"  if (!customElements.get(tagName)) {",
       "    customElements.define(tagName, VectifyIcon)",
       r"  }",
       "",
       "  return VectifyIcon",
       r"}"])]

end IconCompiler.Template.Builtin.Lit
