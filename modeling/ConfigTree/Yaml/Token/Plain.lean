import ConfigTree.Yaml.Token.Gap

/-! Plain scalars: words without quotes, on one line or several. -/

namespace ConfigTree.Yaml.Plain

def isFlowIndicator (c : Char) : Bool :=
  c == ',' || c == '[' || c == ']' || c == '{' || c == '}'

/-- The word in front, up to a blank, a break or an indicator that ends the scalar.  Inside brackets
a colon before an indicator is refused. -/
def word? (flow : Bool) : List Char → Option (List Char)
  | [] => some []
  | c :: s =>
    if endsWord (c :: s) then some []
    else if flow && c == ':' && s.head?.any fun x => isFlowIndicator x || x == '?' then none
    else if c == ':' && endsWord s || flow && isFlowIndicator c then some []
    else (word? flow s).map (c :: ·)

/-- Reads on after `text` and the gap that follows it.  Gives the text, whether a break follows it,
and where it was left. -/
def readFrom (flow : Bool) (indent : Nat) :
    Nat → List Char → Gap → Cursor → Except Fault (List Char × Bool × Cursor)
  | 0, text, gap, c => .ok (text, gap.broken, c)
  | fuel + 1, text, gap, c =>
    if c.atDocumentMark || c.rest.head? == some '#' then .ok (text, gap.broken, c)
    else match word? flow c.rest with
      | none => c.fail .unexpectedColon
      | some [] => .ok (text, gap.broken, c)
      | some word =>
        let text := text ++ gap.text ++ word
        let c := c.skip word.length
        if c.rest.isEmpty || !endsWord c.rest then .ok (text, false, c)
        else do
          let (gap, c) ← Gap.none.read indent fuel c
          if !flow && c.column < indent then .ok (text, gap.broken, c)
          else readFrom flow indent fuel text gap c

/-- A plain scalar whose further lines are indented to `indent` or, inside brackets, anyhow. -/
def read (flow : Bool) (indent : Nat) (c : Cursor) : Except Fault (String × Bool × Cursor) := do
  let (text, broken, c) ← readFrom flow indent c.rest.length [] .none c
  .ok (String.ofList text, broken, c)

end ConfigTree.Yaml.Plain
