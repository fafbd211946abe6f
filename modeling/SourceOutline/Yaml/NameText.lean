import SourceOutline.Text.Utf8
import SourceOutline.Yaml.ScalarText
import SourceOutline.Yaml.Token

/-! The texts of directives, anchors and tags. -/
namespace SourceOutline.Yaml

def nameFrom (c : Cursor) : Except Trouble (String × Cursor) :=
  let chars := c.run isNameChar
  if chars.isEmpty then c.fail .malformed
  else .ok (String.ofList chars, c.advance chars.length)

def anchorName (c : Cursor) : Except Trouble (String × Cursor) := do
  let (name, c) ← nameFrom c
  if endsMark c.next || "?:,]\x7d%@".contains c.next || c.next.toNat == 96 then return (name, c)
  else c.fail .malformed

/-- A handle: one exclamation mark, or a name between two. -/
def tagHandle (c : Cursor) : Except Trouble (String × Cursor) :=
  if c.next != '!' then c.fail .malformed
  else if c.peek 1 == ' ' then .ok ("!", c.step)
  else
    let name := c.step.run isNameChar
    if c.peek (name.length + 1) == '!' then
      .ok (String.ofList ('!' :: name ++ ['!']), c.advance (name.length + 2))
    else (c.advance (name.length + 1)).fail .malformed

def isTagChar (c : Char) : Bool :=
  c.isAlphanum || "-;/?:@&=+$,_.!~*'()[]%".contains c

/-- Octets written as a percent sign and two digits each. -/
def percentOctets : Nat → Cursor → Except Trouble (List UInt8 × Cursor)
  | 0, c => .ok ([], c)
  | fuel + 1, c =>
    if c.next != '%' then .ok ([], c)
    else
      let digits := (c.step.rest.take 2).takeWhile isHexDigit
      if digits.length < 2 then (c.advance (digits.length + 1)).fail .malformed
      else do
        let (more, c) ← percentOctets fuel (c.advance 3)
        return (UInt8.ofNat (ofDigits 16 digits) :: more, c)

def tagCharsFrom : Nat → Cursor → Except Trouble (List Char × Cursor)
  | 0, c => .ok ([], c)
  | fuel + 1, c =>
    if c.next == '%' then do
      let (octets, c) ← percentOctets c.rest.length c
      match Text.Utf8.decode? octets with
      | .error _ => c.fail .malformed
      | .ok text => do
        let (more, c) ← tagCharsFrom fuel c
        return (text ++ more, c)
    else if isTagChar c.next then do
      let (more, c') ← tagCharsFrom fuel c.step
      return (c.next :: more, c')
    else .ok ([], c)

def tagSuffix (c : Cursor) : Except Trouble (String × Cursor) := do
  let (chars, after) ← tagCharsFrom c.rest.length c
  if after.index == c.index then c.fail .malformed
  else return (String.ofList chars, after)

/-- A tag: in angle brackets, a lone exclamation mark, or a handle with a suffix. -/
def tagFrom (c : Cursor) : Except Trouble (TagText × Cursor) := do
  let (tag, c) ←
    if c.peek 1 == '<' then do
      let (suffix, c) ← tagSuffix (c.advance 2)
      if c.next != '>' then c.fail .malformed
      else .ok (TagText.mk none suffix, c.step)
    else if endsMark (c.peek 1) then .ok (TagText.mk none "!", c.step)
    else
      let word := c.step.run (!endsWord ·)
      if word.contains '!' then do
        let (handle, c) ← tagHandle c
        let (suffix, c) ← tagSuffix c
        .ok (TagText.mk (some handle) suffix, c)
      else do
        let (suffix, c) ← tagSuffix c.step
        .ok (TagText.mk (some "!") suffix, c)
  if endsWord c.next then return (tag, c) else c.fail .malformed

def versionPart (c : Cursor) : Except Trouble (Nat × Cursor) :=
  let digits := c.run (·.isDigit)
  if digits.isEmpty then c.fail .malformed
  else if Text.digitLimit < digits.length then (c.advance digits.length).fail (.digits digits.length)
  else .ok (ofDigits 10 digits, c.advance digits.length)

def directiveValue (name : String) (c : Cursor) : Except Trouble (Directive × Cursor) := do
  if name == "YAML" then
    let (major, c) ← versionPart (c.skip (· == ' '))
    if c.next != '.' then c.fail .malformed
    else
      let (_, c) ← versionPart c.step
      if endsWord c.next then return (.version major, c) else c.fail .malformed
  else if name == "TAG" then
    let (handle, c) ← tagHandle (c.skip (· == ' '))
    if c.next != ' ' then c.fail .malformed
    else
      let (start, c) ← tagSuffix (c.skip (· == ' '))
      if endsWord c.next then return (.tag handle start, c) else c.fail .malformed
  else return (.other, c.skip (!endsLine ·))

/-- A directive after its mark, with the rest of its line. -/
def directiveFrom (c : Cursor) : Except Trouble (Directive × Cursor) := do
  let (name, c) ← nameFrom c
  if !endsWord c.next then c.fail .malformed
  else
    let (directive, c) ← directiveValue name c
    return (directive, ← restOfLine c)

end SourceOutline.Yaml
