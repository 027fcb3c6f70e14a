-- The fixed text around the slides of a deck. It is written as it stands.
import Lectern.Text.Basic

namespace Lectern.Template

/-- The text before the first slide: pages, fonts, headings, code
environments, and the start of the document. -/
def prologue : Text := Text.ofLines [
  "\\setuppapersize[S6][S6]",
  "\\setuplayout[backspace=10mm,",
  "    width=190mm,",
  "    topspace=5mm,",
  "    header=0mm,",
  "    footer=0mm,",
  "    %height=250mm,",
  "    edge=0mm,",
  "    margin=0mm]",
  "\\setupbackgrounds[page][background=color,backgroundcolor=black]",
  "",
  "\\usemodule[vim]",
  "\\usemodule[simplefonts][size=30pt]",
  "",
  "",
  "",
  "\\setmainfont[firasansotnormal]",
  "\\setmonofont[firamonootnormal]",
  "\\setsansfont[firasansotnormal]",
  "\\definesimplefont[Subject][firasansotnormal][size=90pt]",
  "\\definesimplefont[SubSubject][firasansotnormal][size=50pt]",
  "",
  "\\setuphead [section]    [style=Subject,",
  "                          align=middle]",
  "\\setuphead [subsection] [style=SubSubject,",
  "                          align=middle]",
  "",
  "\\definevimtyping [RUBY]  [syntax=ruby,",
  "                           before=\x7b\\switchtobodyfont[20pt]\x7d,",
  "                           after=\x7b\\switchtobodyfont[30pt]\x7d,",
  "                           lines=split]",
  "\\definevimtyping [SH]    [syntax=sh,",
  "                           before=\x7b\\switchtobodyfont[20pt]\x7d,",
  "                           after=\x7b\\switchtobodyfont[30pt]\x7d]",
  "\\setuppagenumbering[state=stop]",
  "",
  "\\setuptolerance[verytolerant,stretch]",
  "",
  "\\setupalign[lohi]",
  "\\setupitemgroup[itemize][align=right]",
  "\\setupinterlinespace[line=1.2\\bodyfontsize]",
  "\\definehighlight",
  "  [emphasis]",
  "  [style=italic]",
  "",
  "",
  "\\starttext",
  "\\startcolor[white]"]

/-- The text behind the last slide. -/
def epilogue : Text := Text.ofLines ["\\stopcolor", "\\stoptext"]

/-- The line that opens a slide. -/
def slideStart : Text := Text.ofString "\\startstandardmakeup[align=middle]"

/-- The line that closes a slide. -/
def slideStop : Text := Text.ofString "\\stopstandardmakeup"

end Lectern.Template
