import Hetnet.Text.CharClass.Emoji
import Hetnet.Text.LigatureEnd

/-!
# Emoji of several characters

An emoji can have a skin tone, joiners can make one emoji of several, two regional
indicators are a flag, and a black flag with the hidden name of a region is the flag of
that region. Each of these is two columns wide. They are found from behind: `EmojiEnd` is
the end of an emoji, and `EmojiEnd.before?` says what one more character in front makes of
it. The columns are counted with the last part, so that what is joined to it adds none.
-/

namespace Hetnet

/-- The end of an emoji that may go on to the left. -/
inductive EmojiEnd
  /-- An emoji. -/
  | emoji
  /-- A skin tone. -/
  | skinTone
  /-- One regional indicator. -/
  | regional
  /-- Several regional indicators. -/
  | regionals
  /-- A joiner with an emoji behind it. -/
  | joined
  /-- The frame of a key, and a joiner with an emoji behind it. -/
  | joinedKeycap
  /-- A selector that asks for an emoji, before one of the two ends above. -/
  | joinedSelector
  /-- One regional indicator, and a joiner with an emoji behind it. -/
  | joinedRegional
  /-- An even number of regional indicators, of which the last two are joined to an emoji. -/
  | joinedEven
  /-- An odd number of regional indicators from three on before a joiner: their flags end before
  the last one. -/
  | joinedOdd
  /-- The last so many letters in the name of a region, joined to an emoji. -/
  | tagLetters (count : Nat)
  /-- The last part of the name of a region, which begins with so many digits, joined to an
  emoji. -/
  | tagDigits (count : Nat)
deriving DecidableEq, Inhabited

namespace EmojiEnd

/-- A letter that stands for a region with one more; two of them are a flag. -/
def isRegional (c : Char) : Bool := 0x1F1E6 ≤ c.toNat && c.toNat ≤ 0x1F1FF

/-- A skin tone. -/
def isSkinTone (c : Char) : Bool := 0x1F3FB ≤ c.toNat && c.toNat ≤ 0x1F3FF

/-- A hidden letter, as in the name of a region. -/
def isTagLetter (c : Char) : Bool := 0xE0061 ≤ c.toNat && c.toNat ≤ 0xE007A

/-- A hidden digit, as in the name of a region. -/
def isTagDigit (c : Char) : Bool := 0xE0030 ≤ c.toNat && c.toNat ≤ 0xE0039

/-- The sign that ends the hidden name of a region. -/
def isTagEnd (c : Char) : Bool := c.toNat = 0xE007F

/-- The black flag, which is the flag of a region if its hidden name follows. -/
def isBlackFlag (c : Char) : Bool := c.toNat = 0x1F3F4

/-- The frame that makes a key of the character before it. -/
def isKeycap (c : Char) : Bool := c.toNat = 0x20E3

/-- The end that a character can be, and the columns it takes there. -/
def ofChar? (c : Char) : Option (Int × EmojiEnd) :=
  if isRegional c then some (1, regional)
  else if isSkinTone c then some (2, skinTone)
  else if CharClass.emoji.has c then some (2, emoji)
  else none

/-- Whether a joiner makes one emoji of this one and the one before it. -/
def isJoinable : EmojiEnd → Bool
  | emoji | skinTone | regionals | joinedEven | joinedOdd => true
  | _ => false

/-- Goes on with one more letter or digit in the name of a region: two letters for the country,
and up to three of either kind, or with the flag before such a name. -/
def extendTag? (c : Char) : EmojiEnd → Option (Int × EmojiEnd)
  | tagLetters n =>
      if isTagLetter c && n < 6 then some (0, tagLetters (n + 1))
      else if isTagDigit c && n < 5 then some (0, tagDigits 1)
      else if isBlackFlag c && 3 ≤ n then some (0, emoji)
      else none
  | tagDigits n =>
      if isTagDigit c && n < 3 then some (0, tagDigits (n + 1))
      else if isBlackFlag c && n = 3 then some (0, emoji)
      else none
  | _ => none

/-- Puts a character before the end, if the two belong together: the columns that it adds, and the
new end. -/
def before? (c : Char) (e : EmojiEnd) : Option (Int × EmojiEnd) :=
  if e.isJoinable && c = joiner then some (0, joined)
  else match e with
    | skinTone => if CharClass.skinToned.has c then some (0, emoji) else none
    | regional | regionals => if isRegional c then some (1, regionals) else none
    | joined =>
        if isKeycap c then some (0, joinedKeycap)
        else if isRegional c then some (1, joinedRegional)
        else if isSkinTone c then some (0, skinTone)
        else if isTagEnd c then some (0, tagLetters 0)
        else if CharClass.emoji.has c then some (0, emoji)
        else none
    | joinedRegional | joinedOdd => if isRegional c then some (-1, joinedEven) else none
    | joinedEven => if isRegional c then some (3, joinedOdd) else none
    | e => e.extendTag? c

end EmojiEnd

end Hetnet
