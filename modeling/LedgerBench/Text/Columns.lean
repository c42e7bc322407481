import LedgerBench.Text.Columns.Emoji
import LedgerBench.Text.Columns.Wide

/-!
# Width of a line in terminal columns

Ideographs, full-width forms and most emoji take two columns. Combining marks and invisible format
characters take none. Everything else takes one, control characters included. What follows a
character may change its width: letters melt into ligatures, and emoji into sequences. So a line is
measured from its end to its beginning, with what has been met last as a state (`Ahead`).

In a terminal colour code, the escape character and then a bracketed text up to `m`, every visible
character is hidden and gives back one column. Ligatures and emoji sequences inside a colour code
may so give back more columns than the line takes; then it has no width.
-/

namespace LedgerBench.Text

/-- A style that a variation selector asks for. -/
inductive Style where
  /-- As text. -/
  | text
  /-- As an emoji. -/
  | emoji
deriving Repr, DecidableEq

/-- What stands ahead, as far as it can change the width of the characters before it. -/
inductive Head where
  /-- Nothing of consequence. -/
  | plain
  /-- A part of a ligature. -/
  | ligature (part : Ligature)
  /-- A part of an emoji sequence. -/
  | emoji (part : Emoji)
deriving Repr, DecidableEq

/-- What stands ahead of a character: perhaps a variation selector, and what stands behind it. -/
structure Ahead where
  /-- What stands ahead, but for the variation selector. -/
  head : Head
  /-- The style that the variation selector asks for. -/
  style : Option Style
deriving Repr, DecidableEq

namespace Head

/-- Whether what stands ahead is joined to an emoji before it. -/
def isJoined : Head → Bool
  | emoji part => part.isJoined
  | _ => false

/-- What is left ahead when a variation selector has chosen no style: ligatures do not mind. -/
def unstyled : Head → Head
  | ligature part => ligature part
  | _ => plain

/-- What is ahead of a character before a variation selector. For the emoji style this may be the
joiner to which an emoji in this style is joined. -/
def styled (style : Style) (h : Head) : Ahead :=
  if style = .emoji && h.isJoined then ⟨h, some style⟩ else ⟨h.unstyled, some style⟩

/-- What a character is by itself: the columns it takes, and what it puts ahead of others. -/
def ofChar (c : Char) : Int × Head :=
  match Ligature.ofChar? c, Emoji.ofChar? c with
  | some part, _ => (1, ligature part)
  | none, some .indicator => (1, emoji .indicator)
  | none, some part => (2, emoji part)
  | none, none =>
    -- the Khmer sign beyyal is as wide as three letters
    if c = '\u17d8' then (3, plain)
    else if isZeroWidth c then (0, plain)
    else if isWide c then (2, plain)
    else (1, plain)

/-- The columns of a character with this ahead of it, and what is then ahead. -/
def measure (h : Head) (c : Char) : Int × Head :=
  match h with
  | plain => ofChar c
  | ligature part =>
    match part.pass? c, part.merge? c with
    | some part, _ => (0, ligature part)
    | none, some (columns, some part) => (columns, ligature part)
    | none, some (columns, none) => (columns, plain)
    | none, none => ofChar c
  | emoji part =>
    match part.extend? c with
    | some (columns, part) => (columns, emoji part)
    | none => ofChar c

end Head

namespace Ahead

/-- What stands ahead of the last character. -/
def start : Ahead := ⟨.plain, none⟩

/-- What stands ahead once the style, if one was asked for, has not been chosen. -/
def settled (a : Ahead) : Head :=
  match a.style with
  | none => a.head
  | some _ => a.head.unstyled

/-- The columns of a character with this ahead of it, and what is then ahead. -/
def measure (a : Ahead) (c : Char) : Int × Ahead :=
  if a.style = some .emoji && hasStyles c then
    (if a.head.isJoined then 0 else 2, ⟨.emoji .whole, none⟩)
  else if a.style = some .text && hasNarrowTextStyle c then (1, start)
  else if c.toNat ≤ 0xA0 then (1, start)
  else if c = '\ufe0f' then (0, a.settled.styled .emoji)
  else if c = '\ufe0e' then (0, a.settled.styled .text)
  else
    let (columns, head) := a.settled.measure c
    (columns, ⟨head, none⟩)

/-- The columns of a text, and what it puts ahead of others. -/
def measureAll (text : List Char) : Int × Ahead :=
  text.foldr
    (fun c (columns, ahead) =>
      let (more, ahead) := ahead.measure c
      (columns + more, ahead))
    (0, start)

end Ahead

/-- Whether a character by itself takes any column; control characters do not. -/
def isVisible (c : Char) : Bool :=
  let n := c.toNat
  0x20 ≤ n && !(0x7F ≤ n && n < 0xA0) && 0 < (Head.ofChar c).1

/-- How far a colour code has been read. -/
inductive ColourCode where
  /-- Plain text. -/
  | outside
  /-- The escape character has just been read. -/
  | started
  /-- Inside the brackets of a colour code. -/
  | inside
deriving Repr, DecidableEq

/-- How many characters a character hides, itself or none, and how far a colour code has been read
with it. -/
def ColourCode.step : ColourCode → Char → Nat × ColourCode
  | outside, c => (0, if c = '\x1b' then started else outside)
  | started, c => if c = '[' then (1, inside) else (0, outside)
  | inside, c => (if isVisible c then 1 else 0, if c = 'm' then outside else inside)

/-- The number of visible characters in the colour codes of a line. -/
def hidden (line : List Char) : Nat :=
  let count (state : Nat × ColourCode) (c : Char) :=
    let (more, code) := state.2.step c
    (state.1 + more, code)
  (line.foldl count (0, .outside)).1

/-- The number of terminal columns of a line; there is none if more is hidden than the line
takes. -/
def columns? (s : String) : Option Nat :=
  let rest := (Ahead.measureAll s.toList).1 - hidden s.toList
  if 0 ≤ rest then some rest.toNat else none

end LedgerBench.Text
