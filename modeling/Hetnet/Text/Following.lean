import Hetnet.Text.EmojiEnd

/-!
# What follows a character

How many columns a character takes hangs on what comes after it: a selector can ask for
another form of it, several characters can make one emoji, and several letters can be
written as one. `Following` is what a character has to know of the text after it, and
`Following.before` puts one more character in front of that text.
-/

namespace Hetnet

/-- The form in which a selector asks for the character before it. -/
inductive Form
  | emoji
  | text
  | fullWidth
deriving DecidableEq, Inhabited

/-- The form that a character asks for, if it is a selector. -/
def Form.ofSelector? (c : Char) : Option Form :=
  if c = '\uFE0F' then some emoji
  else if c = '\uFE0E' then some text
  else if c = '\uFE01' then some fullWidth
  else none

/-- What follows a character. -/
inductive Following
  /-- Nothing that matters to the character. -/
  | nothing
  | lineFeed
  /-- A selector. -/
  | selector (form : Form)
  /-- The end of an emoji. -/
  | emoji (e : EmojiEnd)
  /-- The end of letters that may be written as one, and the selector before it if there is one. -/
  | ligature (e : LigatureEnd) (form : Option Form)
deriving DecidableEq, Inhabited

namespace Following

/-- The form in which the character is asked for. -/
def form? : Following → Option Form
  | selector form => some form
  | emoji .joinedSelector => some .emoji
  | ligature _ form => form
  | _ => none

/-- What follows if the selector was in vain. -/
def withoutSelector : Following → Following
  | selector _ => nothing
  | emoji .joinedSelector => nothing
  | ligature e _ => ligature e none
  | f => f

/-- What follows with a selector in front. -/
def withSelector (form : Form) : Following → Following
  | ligature e _ => if e.outlastsSelector then ligature e (some form) else selector form
  | emoji .joined | emoji .joinedKeycap =>
      if form = .emoji then emoji .joinedSelector else selector form
  | _ => selector form

/-- The quotation marks that can be had in full width. -/
def isQuotationMark (c : Char) : Bool :=
  c = '\u2018' || c = '\u2019' || c = '\u201C' || c = '\u201D'

/-- The character in the form that is asked for, if it has that form. -/
def inForm? (c : Char) (next : Following) : Option (Int × Following) :=
  match next.form? with
  | some .emoji =>
      if CharClass.emojiIfAsked.has c then
        some (if next = emoji .joinedSelector then 0 else 2, emoji .emoji)
      else none
  | some .text => if CharClass.textIfAsked.has c then some (1, nothing) else none
  | some .fullWidth => if isQuotationMark c then some (2, nothing) else none
  | none => none

/-- The character by itself. -/
def alone (c : Char) : Int × Following :=
  match EmojiEnd.ofChar? c with
  | some (columns, e) => (columns, emoji e)
  | none => (charWidth c, (LigatureEnd.ofChar? c).elim nothing (ligature · none))

/-- The character in its usual form, before what follows without a selector. -/
def beforePlain (c : Char) (next : Following) : Int × Following :=
  if c = '\n' then (1, lineFeed)
  else if c.toNat ≤ 0xA0 then (if c = '\r' ∧ next = lineFeed then 0 else 1, nothing)
  else match Form.ofSelector? c, next with
    | some form, next => (0, next.withSelector form)
    | none, emoji e =>
        match e.before? c with
        | some (columns, e) => (columns, emoji e)
        | none => alone c
    | none, ligature e _ =>
        match e.before? c with
        | some (columns, e) => (columns, e.elim nothing (ligature · none))
        | none => alone c
    | none, _ => alone c

/-- Puts a character before a text: the columns that it adds, and what the character before it
has to know. -/
def before (c : Char) (next : Following) : Int × Following :=
  match inForm? c next with
  | some answer => answer
  | none => beforePlain c next.withoutSelector

end Following

end Hetnet
