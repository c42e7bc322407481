import LedgerBench.Text.Columns.ZeroWidth

/-!
# Ligatures of scripts

In some scripts neighbouring letters melt into one sign. A text is measured from its end to its
beginning, so a ligature is met from the right: `Ligature` is its part that has been met, and
`Ligature.merge?` tells which characters to the left complete it. Marks that Unicode ignores by
default may stand between the parts; where a zero-width joiner has to stand there, `joined` tells
whether it does.
-/

namespace LedgerBench.Text

/-- The zero-width joiner. -/
def joiner : Char := '\u200d'

/-- The right part of what may become a ligature. -/
inductive Ligature where
  /-- The Arabic letter alef, which a lam takes up. -/
  | alef
  /-- The Hebrew letter lamed, which an alef takes up. -/
  | lamed (joined : Bool)
  /-- The Buginese letter ya, which a vowel sign i takes up. -/
  | ya (joined : Bool)
  /-- The Buginese vowel sign i with its ya, which a letter a takes up. -/
  | vowelYa
  /-- A Tifinagh consonant, which another one takes up. -/
  | tifinagh (joined : Bool)
  /-- The Tifinagh consonant joiner with a consonant behind it. -/
  | joinedTifinagh
  /-- The second of two tone letters of Lisu. -/
  | lisuTone
  /-- The Old Turkic letter i of the Orkhon inscriptions, which a letter ot takes up. -/
  | orkhonI (joined : Bool)
  /-- A Khmer letter, which a coeng sign turns into a subscript. -/
  | khmerLetter
deriving Repr, DecidableEq

namespace Ligature

/-- The characters with the property `Joining_Group=Alef`. -/
def alefRanges : Ranges :=
  [(0x622, 0x623), (0x625, 0x625), (0x627, 0x627), (0x671, 0x673), (0x675, 0x675),
   (0x773, 0x774), (0x870, 0x882)]

/-- The characters with the property `Joining_Group=Lam`. -/
def lamRanges : Ranges :=
  [(0x644, 0x644), (0x6B5, 0x6B8), (0x76A, 0x76A), (0x8A6, 0x8A6), (0x8C7, 0x8C7)]

/-- The consonants of Tifinagh. -/
def tifinaghRanges : Ranges := [(0x2D31, 0x2D65), (0x2D6F, 0x2D6F)]

/-- The letters of Khmer that have a subscript form. -/
def khmerRanges : Ranges :=
  [(0x1780, 0x1782), (0x1784, 0x1787), (0x1789, 0x178C), (0x178E, 0x1793), (0x1795, 0x1798),
   (0x179B, 0x179D), (0x17A0, 0x17A0), (0x17A2, 0x17A2), (0x17A7, 0x17A7), (0x17AB, 0x17AC),
   (0x17AF, 0x17AF)]

/-- The combining marks with the property `Default_Ignorable_Code_Point`. -/
def ignorableMarkRanges : Ranges :=
  [(0x34F, 0x34F), (0x17B4, 0x17B5), (0x180B, 0x180D), (0x180F, 0x180F), (0xFE00, 0xFE0F),
   (0xE0100, 0xE01EF)]

/-- The ligature of which a character may be the last part. -/
def ofChar? (c : Char) : Option Ligature :=
  if c = '\u05dc' then some (lamed false)
  else if alefRanges.contains c then some alef
  else if khmerRanges.contains c then some khmerLetter
  else if c = '\u1a10' then some (ya false)
  else if tifinaghRanges.contains c then some (tifinagh false)
  else if c = '\ua4fc' || c = '\ua4fd' then some lisuTone
  else if c = Char.ofNat 0x10C03 then some (orkhonI false)
  else none

/-- The part with a joiner in front. -/
def join : Ligature → Ligature
  | lamed _ => lamed true
  | ya _ => ya true
  | tifinagh _ => tifinagh true
  | orkhonI _ => orkhonI true
  | part => part

/-- The part after a mark that may stand between the parts has been met. -/
def pass? : Ligature → Char → Option Ligature
  | alef, c => if isJoiningTransparent c then some alef else none
  | part, c =>
    if c = joiner then some part.join
    else if ignorableMarkRanges.contains c then some part
    else none

/-- The columns that a character adds when it takes up a part, and the part that is left to be taken
up. A negative number gives back columns of the part. -/
def merge? : Ligature → Char → Option (Int × Option Ligature)
  | alef, c => if lamRanges.contains c then some (0, none) else none
  | lamed true, '\u05d0' => some (0, none)
  | ya true, '\u1a17' => some (0, some vowelYa)
  | vowelYa, '\u1a15' => some (0, none)
  | tifinagh _, '\u2d7f' => some (1, some joinedTifinagh)
  | tifinagh true, c => if tifinaghRanges.contains c then some (0, none) else none
  | joinedTifinagh, c => if tifinaghRanges.contains c then some (-1, none) else none
  | lisuTone, c => if '\ua4f8' ≤ c && c ≤ '\ua4fb' then some (0, none) else none
  | orkhonI true, c => if c.toNat = 0x10C32 then some (0, none) else none
  | khmerLetter, '\u17d2' => some (-1, none)
  | _, _ => none

end Ligature

end LedgerBench.Text
