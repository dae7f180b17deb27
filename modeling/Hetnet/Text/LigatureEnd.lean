import Hetnet.Text.CharClass.Columns
import Hetnet.Text.CharClass.Joining

/-!
# Letters that are written as one

In some scripts certain letters that follow one another are written as one and take the
columns of one. They are found from behind: `LigatureEnd` is the end of such a group, and
`LigatureEnd.before?` says what one more character in front makes of it.
-/

namespace Hetnet

/-- The sign that joins the characters on its sides. -/
def joiner : Char := '\u200D'

/-- The columns that a character takes by itself. -/
def charWidth (c : Char) : Nat :=
  if c.toNat = 0x17D8 then 3
  else if CharClass.zeroWidth.has c then 0
  else if CharClass.wide.has c then 2
  else 1

/-- The end of several letters that may be written as one. Where it matters, `joined` says whether
a joiner stands before that end. -/
inductive LigatureEnd
  /-- An Arabic alef, which a lam takes up. -/
  | alef
  /-- A Hebrew lamed, which a joiner ties to an alef. -/
  | lamed (joined : Bool)
  /-- A Buginese ya, which a joiner ties to a vowel sign. -/
  | ya (joined : Bool)
  /-- A Buginese vowel sign with its ya, which the letter a takes up. -/
  | vowelAndYa
  /-- A consonant of Tifinagh, which can be tied to another one. -/
  | consonant (joined : Bool)
  /-- A consonant of Tifinagh behind the sign of that script that ties it to another one. -/
  | tiedConsonant
  /-- A tone letter of Lisu, which another tone letter takes up. -/
  | tone
  /-- An Old Turkic i, which a joiner ties to a letter before it. -/
  | turkicI (joined : Bool)
  /-- A Khmer letter, which is written below the one before it if a coeng says so. -/
  | stacked
  /-- The vowel sign e of Kirat Rai. -/
  | vowelE
  /-- The vowel sign ai of Kirat Rai, or the two signs e that are the same. -/
  | vowelAi
deriving DecidableEq, Inhabited

namespace LigatureEnd

/-- The end that a letter can be. -/
def ofChar? (c : Char) : Option LigatureEnd :=
  if CharClass.alef.has c then some alef
  else if c.toNat = 0x05DC then some (lamed false)
  else if CharClass.stacked.has c then some stacked
  else if c.toNat = 0x1A10 then some (ya false)
  else if CharClass.tifinaghConsonant.has c then some (consonant false)
  else if CharClass.lisuSecondTone.has c then some tone
  else if c.toNat = 0x10C03 then some (turkicI false)
  else if c.toNat = 0x16D67 then some vowelE
  else if c.toNat = 0x16D68 then some vowelAi
  else none

/-- The end with a joiner before it. -/
def join : LigatureEnd → LigatureEnd
  | lamed _ => lamed true
  | ya _ => ya true
  | consonant _ => consonant true
  | turkicI _ => turkicI true
  | e => e

/-- Whether selectors leave the end as it is. The vowel signs of Kirat Rai are one sign only next
to each other. -/
def outlastsSelector : LigatureEnd → Bool
  | vowelE | vowelAi => false
  | _ => true

/-- Whether hidden marks and joiners leave the letters together. Arabic letters have marks of their
own, and a joiner parts them. -/
def outlastsMark : LigatureEnd → Bool
  | alef | vowelE | vowelAi => false
  | _ => true

/-- Whether a character is a mark on the Arabic letter before it. -/
def isOnLetter (c : Char) : Bool :=
  charWidth c = 0 && !CharClass.keepsApart.has c

/-- What the letters of its script make of the end: the columns that the character adds, and the
new end unless the group is complete. -/
def extend? (c : Char) : LigatureEnd → Option (Int × Option LigatureEnd)
  | alef =>
      if CharClass.lam.has c then some (0, none)
      else if isOnLetter c then some (0, some alef)
      else none
  | lamed true => if c.toNat = 0x05D0 then some (0, none) else none
  | ya true => if c.toNat = 0x1A17 then some (0, some vowelAndYa) else none
  | vowelAndYa => if c.toNat = 0x1A15 then some (0, none) else none
  | consonant joined =>
      if c.toNat = 0x2D7F then some (1, some tiedConsonant)
      else if joined && CharClass.tifinaghConsonant.has c then some (0, none)
      else none
  | tiedConsonant => if CharClass.tifinaghConsonant.has c then some (-1, none) else none
  | tone => if CharClass.lisuFirstTone.has c then some (0, none) else none
  | turkicI true => if c.toNat = 0x10C32 then some (0, none) else none
  | stacked => if c.toNat = 0x17D2 then some (-1, none) else none
  | vowelE =>
      if c.toNat = 0x16D63 ∨ c.toNat = 0x16D69 then some (0, none)
      else if c.toNat = 0x16D67 then some (0, some vowelAi)
      else if c.toNat = 0x16D68 then some (1, some vowelE)
      else none
  | vowelAi => if c.toNat = 0x16D63 then some (0, none) else none
  | lamed false | ya false | turkicI false => none

/-- Puts a character before the end, if the two belong together. -/
def before? (c : Char) (e : LigatureEnd) : Option (Int × Option LigatureEnd) :=
  if e.outlastsMark && c = joiner then some (0, some e.join)
  else if e.outlastsMark && CharClass.hiddenMark.has c then some (0, some e)
  else e.extend? c

end LigatureEnd

end Hetnet
