import IconCompiler.Template.Builtin.Parts

/-! Angular class components. -/

namespace IconCompiler.Template.Builtin.Angular

open Text (lines)

def component : List Part :=
  [.text (lines
      [r"import { ChangeDetectionStrategy, Component } from '@angular/core'",
       r"import { VectifyIcon } from './createIcon'",
       r"import type { IconNode } from './createIcon'",
       "",
       r"@Component({"] ++ "  selector: '"),
   tagName,
   .text (lines
      ["',",
       "  standalone: true,",
       "  template: '',",
       "  changeDetection: ChangeDetectionStrategy.OnPush,",
       r"})"] ++ "export class "),
   componentName, .text (lines [r" extends VectifyIcon {"] ++ "  protected readonly name = '"),
   componentName,
   .text (lines
      ["'",
       "  protected readonly iconNode: IconNode[] = ["]),
   formattedNodes,
   .text (lines
      ["",
       "  ]",
       r"}"])]

def runtime : List Part :=
  [.text (lines
      [r"import { Directive, ElementRef, Input, OnChanges, OnInit, Renderer2, inject } from '@angular/core'",
       "",
       "export type IconNode = [string, Record<string, string | number>, IconNode[]?]",
       "",
       "const SVG_NS = 'http://www.w3.org/2000/svg'",
       "const BASE_CLASS = 'vectify-icon'",
       "",
       "@Directive()",
       r"export abstract class VectifyIcon implements OnInit, OnChanges {",
       "  @Input() size: number | string = 24",
       "  @Input() color = 'currentColor'",
       "  @Input() strokeWidth: number | string = 2",
       "  @Input() class = ''",
       "  @Input() title?: string",
       "  @Input('aria-label') ariaLabel?: string",
       "  @Input('aria-hidden') ariaHidden?: boolean | 'true' | 'false'",
       "",
       "  protected abstract readonly name: string",
       "  protected abstract readonly iconNode: IconNode[]",
       "",
       "  private readonly host: ElementRef<HTMLElement> = inject(ElementRef)",
       "  private readonly renderer = inject(Renderer2)",
       "",
       r"  ngOnInit(): void {",
       "    this.render()",
       r"  }",
       "",
       r"  ngOnChanges(): void {",
       "    this.render()",
       r"  }",
       "",
       r"  private resolve(value: string | number): string {",
       "    if (value === '$color') return this.color",
       "    if (value === '$strokeWidth') return String(this.strokeWidth)",
       "    return String(value)",
       r"  }",
       "",
       r"  private createNode(node: IconNode): Element {",
       "    const [type, attrs, children] = node",
       "    const element = this.renderer.createElement(type, 'svg')",
       r"    for (const [name, value] of Object.entries(attrs)) {",
       "      this.renderer.setAttribute(element, name, this.resolve(value))",
       r"    }",
       r"    for (const child of children ?? []) {",
       "      this.renderer.appendChild(element, this.createNode(child))",
       r"    }",
       "    return element",
       r"  }",
       "",
       r"  private render(): void {",
       "    const host = this.host.nativeElement",
       "    const labelled = Boolean(this.title || this.ariaLabel)",
       "    const svg = this.renderer.createElement('svg', 'svg')",
       "",
       "    this.renderer.setAttribute(svg, 'xmlns', SVG_NS)",
       "    this.renderer.setAttribute(svg, 'width', String(this.size))",
       "    this.renderer.setAttribute(svg, 'height', String(this.size))",
       "    this.renderer.setAttribute(svg, 'viewBox', '0 0 24 24')",
       "    this.renderer.setAttribute(svg, 'aria-hidden', String(this.ariaHidden ?? !labelled))",
       r"    this.renderer.setAttribute(svg, 'class', this.class ? `${BASE_CLASS} ${this.class}` : BASE_CLASS)",
       "    this.renderer.setAttribute(svg, 'data-icon', this.name)",
       r"    if (labelled) {",
       "      this.renderer.setAttribute(svg, 'role', 'img')",
       r"    }",
       r"    if (this.ariaLabel) {",
       "      this.renderer.setAttribute(svg, 'aria-label', this.ariaLabel)",
       r"    }",
       r"    if (this.title) {",
       "      const title = this.renderer.createElement('title', 'svg')",
       "      this.renderer.appendChild(title, this.renderer.createText(this.title))",
       "      this.renderer.appendChild(svg, title)",
       r"    }",
       r"    for (const node of this.iconNode) {",
       "      this.renderer.appendChild(svg, this.createNode(node))",
       r"    }",
       "",
       r"    while (host.firstChild) {",
       "      this.renderer.removeChild(host, host.firstChild)",
       r"    }",
       "    this.renderer.appendChild(host, svg)",
       r"  }",
       r"}"])]

end IconCompiler.Template.Builtin.Angular
