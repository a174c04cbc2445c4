import Abacus.Text.Emoji

/-!
# Width — how many columns a text takes on a terminal

The columns of the characters are counted together, and what sets the colour of the text after it
is left out of account.

A text is looked at from its end.  What follows a character may change how many columns it takes:
pictures are joined into one, and some scripts have letters that are drawn as one.

* Arabic: a lam before an alef.
* Hebrew: an alef, a joiner and a lamed.
* Khmer: a coeng and the letter below it.
* Buginese: a letter, its vowel sign, a joiner and a ya.
* Tifinagh: two consonants with a joiner between them.
* Lisu: two tone letters.
* Old Turkic: two letters with a joiner between them.
-/

namespace Abacus.Text

/-! ## Characters that share their columns -/

/-- What follows a character, as far as it matters. -/
inductive Following where
  | plain
  | tone
  | flagLetter
  | flagLetters
  | picture
  /-- A joiner and a picture; the others of this name are what can stand in front of them. -/
  | joinedPicture
  | joinedKeycap
  | joinedFlagLetter
  | joinedFlagEven
  | joinedFlagOdd
  /-- The end of tags, with so many letters in front of it. -/
  | joinedTagLetters (count : Nat)
  /-- The end of tags, with letters and so many digits in front of it. -/
  | joinedTagDigits (count : Nat)
  | alef
  | lamed (joined : Bool)
  | ya (joined : Bool)
  | vowelAndYa
  | consonant (joined : Bool)
  | joinedConsonant
  | toneLetter
  | orkhonI (joined : Bool)
  | coengLetter
  deriving DecidableEq

/-- A selector. -/
inductive Selector where
  | picture
  | plain
  deriving DecidableEq

/-- What follows a character, and a selector in front of that. -/
structure Context where
  following : Following
  selector : Option Selector
  deriving DecidableEq

/-- The characters that take no column but do not let letters be drawn as one across them. -/
def separating : List (Nat × Nat) :=
  [(0x605, 0x605), (0x890, 0x891), (0x8E2, 0x8E2), (0x9BE, 0x9BE), (0x9D7, 0x9D7), (0xB3E, 0xB3E),
    (0xB57, 0xB57), (0xBBE, 0xBBE), (0xBD7, 0xBD7), (0xCC0, 0xCC0), (0xCC2, 0xCC2), (0xCC7, 0xCC8),
    (0xCCA, 0xCCB), (0xCD5, 0xCD6), (0xD3E, 0xD3E), (0xD4E, 0xD4E), (0xD57, 0xD57), (0xDCF, 0xDCF),
    (0xDDF, 0xDDF), (0x1160, 0x11FF), (0x180E, 0x180E), (0x1B35, 0x1B35), (0x1B3B, 0x1B3B),
    (0x1B3D, 0x1B3D), (0x1B43, 0x1B43), (0x200C, 0x200D), (0x2065, 0x2069), (0x302E, 0x302F),
    (0x3164, 0x3164), (0xA8FA, 0xA8FA), (0xD7B0, 0xD7C6), (0xD7CB, 0xD7FB), (0xFF9E, 0xFFA0),
    (0xFFF0, 0xFFF8), (0x111C2, 0x111C3), (0x1133E, 0x1133E), (0x11357, 0x11357),
    (0x114B0, 0x114B0), (0x114BD, 0x114BD), (0x115AF, 0x115AF), (0x11930, 0x11930),
    (0x1193F, 0x1193F), (0x11941, 0x11941), (0x11A3A, 0x11A3A), (0x11A84, 0x11A89),
    (0x11D46, 0x11D46), (0x11F02, 0x11F02), (0x1D165, 0x1D165), (0x1D16E, 0x1D172),
    (0xE0000, 0xE0000), (0xE0002, 0xE001F), (0xE0080, 0xE00FF), (0xE01F0, 0xE0FFF)]

/-- An Arabic lam can be drawn as one with an alef across the character. -/
def isTransparent (c : Char) : Bool :=
  columns c == 0 && !isWithin separating c.toNat

/-- The letters of other scripts can be drawn as one across the character. -/
def isIgnorable (c : Char) : Bool :=
  let n := c.toNat
  n == 0x34F || n == 0x17B4 || n == 0x17B5 || (0x180B ≤ n && n ≤ 0x180D) || n == 0x180F ||
    n == 0x200D || (0xFE00 ≤ n && n ≤ 0xFE0F) || (0xE0100 ≤ n && n ≤ 0xE01EF)

/-- The character is an Arabic lam. -/
def isLam (c : Char) : Bool :=
  let n := c.toNat
  n == 0x644 || (0x6B5 ≤ n && n ≤ 0x6B8) || n == 0x76A || n == 0x8A6 || n == 0x8C7

/-- The character is an Arabic alef. -/
def isAlef (c : Char) : Bool :=
  isWithin [(0x622, 0x623), (0x625, 0x625), (0x627, 0x627), (0x671, 0x673), (0x675, 0x675),
    (0x773, 0x774), (0x870, 0x882)] c.toNat

/-- The character is a Tifinagh consonant. -/
def isConsonant (c : Char) : Bool :=
  (0x2D31 ≤ c.toNat && c.toNat ≤ 0x2D65) || c.toNat == 0x2D6F

/-- The character is a Khmer letter that a coeng can put below another. -/
def isCoengLetter (c : Char) : Bool :=
  isWithin [(0x1780, 0x1782), (0x1784, 0x1787), (0x1789, 0x178C), (0x178E, 0x1793),
    (0x1795, 0x1798), (0x179B, 0x179D), (0x17A0, 0x17A0), (0x17A2, 0x17A2), (0x17A7, 0x17A7),
    (0x17AB, 0x17AC), (0x17AF, 0x17AF)] c.toNat

/-- The character is a letter among tags. -/
def isTagLetter (c : Char) : Bool :=
  0xE0061 ≤ c.toNat && c.toNat ≤ 0xE007A

/-- The character is a digit among tags. -/
def isTagDigit (c : Char) : Bool :=
  0xE0030 ≤ c.toNat && c.toNat ≤ 0xE0039

namespace Following

/-- Letters that are drawn as one with what is in front of them. -/
def isLetter : Following → Bool
  | .alef | .lamed _ | .ya _ | .vowelAndYa | .consonant _ | .joinedConsonant | .toneLetter
  | .orkhonI _ | .coengLetter => true
  | _ => false

/-- A joiner and a picture, or a keycap in front of them. -/
def awaitsPicture : Following → Bool
  | .joinedPicture | .joinedKeycap => true
  | _ => false

/-- With a joiner in front. -/
def join : Following → Following
  | .lamed _ => .lamed true
  | .ya _ => .ya true
  | .consonant _ => .consonant true
  | .orkhonI _ => .orkhonI true
  | following => following

/-- What is left when the picture selector is in front. -/
def underPicture (following : Following) : Following :=
  if following.isLetter || following.awaitsPicture then following else .plain

/-- What is left when the plain selector is in front, or no selector has an effect. -/
def lettersOnly (following : Following) : Following :=
  if following.isLetter then following else .plain

/-- What a character is to the one before it. -/
def of (c : Char) : Following :=
  let n := c.toNat
  if isAlef c then .alef
  else if n = 0x5DC then .lamed false
  else if n = 0x1A10 then .ya false
  else if isConsonant c then .consonant false
  else if n = 0xA4FC || n = 0xA4FD then .toneLetter
  else if n = 0x10C03 then .orkhonI false
  else if isCoengLetter c then .coengLetter
  else if isTone c then .tone
  else if isFlagLetter c then .flagLetter
  else if isPicture c then .picture
  else .plain

/-- How a letter and what follows it share their columns, if they do: the change, and what they
are to the character before. -/
def letterChange (following : Following) (c : Char) : Option (Int × Following) :=
  let n := c.toNat
  match following with
  | .alef =>
      if isLam c then some (0, .plain) else if isTransparent c then some (0, .alef) else none
  | .lamed true => if n = 0x5D0 then some (0, .plain) else none
  | .coengLetter => if n = 0x17D2 then some (-1, .plain) else none
  | .ya true => if n = 0x1A17 then some (0, .vowelAndYa) else none
  | .vowelAndYa => if n = 0x1A15 then some (0, .plain) else none
  | .consonant joined =>
      if n = 0x2D7F then some (1, .joinedConsonant)
      else if joined && isConsonant c then some (0, .plain)
      else none
  | .joinedConsonant => if isConsonant c then some (-1, .plain) else none
  | .toneLetter => if 0xA4F8 ≤ n && n ≤ 0xA4FB then some (0, .plain) else none
  | .orkhonI true => if n = 0x10C32 then some (0, .plain) else none
  | _ => none

/-- How a character and tags after it share their columns, if they do. -/
def tagChange (letters digits : Nat) (c : Char) : Option (Int × Following) :=
  if digits = 0 && letters < 6 && isTagLetter c then some (0, .joinedTagLetters (letters + 1))
  else if isTagDigit c && digits < 3 && (digits ≠ 0 || letters ≤ 4) then
    some (0, .joinedTagDigits (digits + 1))
  else if c == blackFlag && (3 ≤ letters || digits = 3) then some (0, .picture)
  else none

/-- How a character and a picture after it share their columns, if they do. -/
def pictureChange (following : Following) (c : Char) : Option (Int × Following) :=
  match following with
  | .tone =>
      if isToned c then some (0, .picture)
      else if c == joiner then some (0, .joinedPicture)
      else none
  | .flagLetter => if isFlagLetter c then some (1, .flagLetters) else none
  | .flagLetters =>
      if isFlagLetter c then some (1, .flagLetters)
      else if c == joiner then some (0, .joinedPicture)
      else none
  | .picture => if c == joiner then some (0, .joinedPicture) else none
  | .joinedPicture =>
      if c.toNat = 0x20E3 then some (0, .joinedKeycap)
      else if isFlagLetter c then some (1, .joinedFlagLetter)
      else if isTone c then some (0, .tone)
      else if c.toNat = 0xE007F then some (0, .joinedTagLetters 0)
      else if isPicture c then some (0, .picture)
      else none
  | .joinedFlagLetter => if isFlagLetter c then some (-1, .joinedFlagEven) else none
  | .joinedFlagEven =>
      if isFlagLetter c then some (3, .joinedFlagOdd)
      else if c == joiner then some (0, .joinedPicture)
      else none
  | .joinedFlagOdd =>
      if isFlagLetter c then some (-1, .joinedFlagEven)
      else if c == joiner then some (0, .joinedPicture)
      else none
  | .joinedTagLetters count => tagChange count 0 c
  | .joinedTagDigits count => tagChange 0 count c
  | _ => none

end Following

namespace Context

/-- Nothing follows that matters. -/
def none : Context :=
  ⟨.plain, Option.none⟩

/-- A character by itself, with what it is to the one before it. -/
def alone (c : Char) : Int × Context :=
  if c == pictureSelector then (0, ⟨.plain, some .picture⟩)
  else if c == plainSelector then (0, ⟨.plain, some .plain⟩)
  else (columns c, ⟨Following.of c, Option.none⟩)

/-- A character in front of what follows, when no selector has an effect on it. -/
def unselected (following : Following) (c : Char) : Int × Context :=
  if following.isLetter && following != .alef && c == joiner then
    (0, ⟨following.join, Option.none⟩)
  else if following.isLetter && following != .alef && isIgnorable c then
    (0, ⟨following, Option.none⟩)
  else
    match following.letterChange c <|> following.pictureChange c with
    | some (change, next) => (change, ⟨next, Option.none⟩)
    | Option.none => alone c

/-- A character in front of what follows, when that is no picture selector with an effect. -/
def afterPicture (context : Context) (c : Char) : Int × Context :=
  if c.toNat ≤ 0xA0 then (1, none)
  else if context = none then alone c
  else if c == pictureSelector then (0, ⟨context.following.underPicture, some .picture⟩)
  else if c == plainSelector then (0, ⟨context.following.lettersOnly, some .plain⟩)
  else
    match context.selector with
    | some .plain =>
        if startsPlain c then (1, none) else unselected context.following.lettersOnly c
    | _ => unselected context.following c

/-- How many columns a character adds to what follows it, and what both are to the character
before. -/
def put (context : Context) (c : Char) : Int × Context :=
  match context.selector with
  | some .picture =>
      if startsPicture c then
        (if context.following.awaitsPicture then 0 else 2, ⟨.picture, Option.none⟩)
      else afterPicture ⟨context.following.lettersOnly, Option.none⟩ c
  | _ => context.afterPicture c

end Context

/-- How many columns the characters of a text take together. -/
def joinedColumns (text : List Char) : Int :=
  (text.foldr (fun c (sum, context) => let (add, next) := context.put c; (sum + add, next))
    ((0 : Int), Context.none)).1

/-! ## Columns of a text -/

/-- Where a character stands: in plain text, right after an escape, or in a colour sequence, which
is an escape, a bracket and what follows up to a letter `m`. -/
inductive Place where
  | plain
  | escaped
  | coloured

/-- How many columns of a text are hidden from a place on: one for each character after the
escape of a colour sequence that takes any.  The escape is not hidden. -/
def hiddenFrom : Place → List Char → Nat
  | _, [] => 0
  | .plain, c :: rest => hiddenFrom (if c == '\x1b' then .escaped else .plain) rest
  | .escaped, c :: rest =>
      if c == '[' then 1 + hiddenFrom .coloured rest else hiddenFrom .plain rest
  | .coloured, c :: rest =>
      (if isControl c || columns c == 0 then 0 else 1) +
        hiddenFrom (if c == 'm' then .plain else .coloured) rest

/-- How many columns a text takes. -/
def width (text : List Char) : Nat :=
  (joinedColumns text - hiddenFrom .plain text).toNat

end Abacus.Text
