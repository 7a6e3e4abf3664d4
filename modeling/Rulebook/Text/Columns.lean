import Rulebook.Text.Emoji
import Rulebook.Text.Width

/-!
# How many columns a line of text takes in a table

A line is measured from its end, because what stands behind a character decides how it is shown.
A selector makes it a picture or text, a skin tone and a joiner make one picture of several, and in
some scripts two letters are written as one. What the parts took is then corrected in front of them,
so a character may add less than nothing.
-/

namespace Rulebook.Text

/-- What stands behind a character, as far as it can be shown together with it. -/
inductive Start where
  | other
  | picture
  | skinTone
  /-- A regional letter that a second one may make a flag. -/
  | flagLetter
  | flagLetters
  /-- A joiner with a picture behind it. -/
  | joined
  /-- The frame of a key, joined to a picture. -/
  | joinedKey
  /-- Regional letters, joined to a picture: one, an even number, or an odd number above one. -/
  | joinedLetter
  | joinedEven
  | joinedOdd
  /-- The end of a flag that is spelt in tags, joined to a picture: so many letters of it. -/
  | joinedTags (letters : Nat)
  /-- The same with so many digits before the letters. -/
  | joinedDigits (digits : Nat)
  | arabicAlef
  | hebrewLamed (afterJoiner : Bool)
  | khmerLetter
  | bugineseYa (afterJoiner : Bool)
  | bugineseIYa
  | tifinagh (afterJoiner : Bool)
  | tifinaghAfterJoiner
  | lisuTone
  | orkhonI (afterJoiner : Bool)
  | kiratRaiE
  | kiratRaiAi
deriving DecidableEq, Repr

inductive Selector where
  | picture
  | text
  /-- Asks for a wide quotation mark. -/
  | wide
deriving DecidableEq, Repr

/-- What stands behind a character: perhaps a selector, and what follows that. -/
structure Behind where
  start : Start := .other
  selector? : Option Selector := none
deriving DecidableEq, Repr

/-! ## One character by itself -/

def isTifinagh (c : Char) : Bool := inRange 0x2d31 0x2d65 c || c.toNat = 0x2d6f

/-- Khmer letters that are written below another one. -/
def isKhmerLetter (c : Char) : Bool :=
  inRanges [(0x1780, 0x1782), (0x1784, 0x1787), (0x1789, 0x178c), (0x178e, 0x1793),
    (0x1795, 0x1798), (0x179b, 0x179d), (0x17a0, 0x17a0), (0x17a2, 0x17a2), (0x17a7, 0x17a7),
    (0x17ab, 0x17ac), (0x17af, 0x17af)] c

def isArabicAlef (c : Char) : Bool :=
  inRanges [(0x622, 0x623), (0x625, 0x625), (0x627, 0x627), (0x671, 0x673), (0x675, 0x675),
    (0x773, 0x774), (0x870, 0x882)] c

def isArabicLam (c : Char) : Bool :=
  inRanges [(0x644, 0x644), (0x6b5, 0x6b8), (0x76a, 0x76a), (0x8a6, 0x8a6), (0x8c7, 0x8c7)] c

def isQuotationMark (c : Char) : Bool := inRanges [(0x2018, 0x2019), (0x201c, 0x201d)] c

def isTagLetter (c : Char) : Bool := inRange 0xe0061 0xe007a c

def isTagDigit (c : Char) : Bool := inRange 0xe0030 0xe0039 c

/-- The joiner makes one of the two characters around it. -/
def isJoiner (c : Char) : Bool := c.toNat = 0x200d

def Selector.of? (c : Char) : Option Selector :=
  if c.toNat = 0xfe0f then some .picture
  else if c.toNat = 0xfe0e then some .text
  else if c.toNat = 0xfe01 then some .wide
  else none

/-- What a character is for the one before it. -/
def Start.of (c : Char) : Start :=
  if c.toNat < 0x80 then .other
  else if isArabicAlef c then .arabicAlef
  else if c.toNat = 0x5dc then .hebrewLamed false
  else if isKhmerLetter c then .khmerLetter
  else if c.toNat = 0x1a10 then .bugineseYa false
  else if isTifinagh c then .tifinagh false
  else if inRange 0xa4fc 0xa4fd c then .lisuTone
  else if c.toNat = 0x10c03 then .orkhonI false
  else if c.toNat = 0x16d67 then .kiratRaiE
  else if c.toNat = 0x16d68 then .kiratRaiAi
  else if isFlagLetter c then .flagLetter
  else if isSkinTone c then .skinTone
  else if isPicture c then .picture
  else .other

/-! ## What is shown together -/

/-- Pictures that the joiner before them makes one with the picture in front. -/
def Start.isJoined : Start → Bool
  | .joined | .joinedKey => true
  | _ => false

/-- Letters that a joiner or ignorable marks may stand before without keeping others off. -/
def Start.isJoinable : Start → Bool
  | .hebrewLamed _ | .khmerLetter | .bugineseYa _ | .bugineseIYa | .tifinagh _
  | .tifinaghAfterJoiner | .lisuTone | .orkhonI _ => true
  | _ => false

/-- Letters that stay what they are behind a selector. -/
def Start.isLetter (s : Start) : Bool := s = .arabicAlef || s.isJoinable

def Start.afterJoiner : Start → Start
  | .hebrewLamed _ => .hebrewLamed true
  | .bugineseYa _ => .bugineseYa true
  | .tifinagh _ => .tifinagh true
  | .orkhonI _ => .orkhonI true
  | s => s

/-- What `c` adds in front of a letter that it is written as one with, and what they are then. -/
def letters? (c : Char) : Start → Option (Int × Start)
  | .arabicAlef =>
    if isArabicLam c then some (0, .other)
    else if isTransparent c then some (0, .arabicAlef)
    else none
  | .hebrewLamed true => if c.toNat = 0x5d0 then some (0, .other) else none
  | .khmerLetter => if c.toNat = 0x17d2 then some (-1, .other) else none
  | .bugineseYa true => if c.toNat = 0x1a17 then some (0, .bugineseIYa) else none
  | .bugineseIYa => if c.toNat = 0x1a15 then some (0, .other) else none
  | .tifinagh afterJoiner =>
    if c.toNat = 0x2d7f then some (1, .tifinaghAfterJoiner)
    else if afterJoiner && isTifinagh c then some (0, .other)
    else none
  | .tifinaghAfterJoiner => if isTifinagh c then some (-1, .other) else none
  | .lisuTone => if inRange 0xa4f8 0xa4fb c then some (0, .other) else none
  | .orkhonI true => if c.toNat = 0x10c32 then some (0, .other) else none
  | .kiratRaiE =>
    if c.toNat = 0x16d63 || c.toNat = 0x16d69 then some (0, .other)
    else if c.toNat = 0x16d67 then some (0, .kiratRaiAi)
    else if c.toNat = 0x16d68 then some (1, .kiratRaiE)
    else none
  | .kiratRaiAi => if c.toNat = 0x16d63 then some (0, .other) else none
  | _ => none

/-- What `c` adds in front of a picture that it is part of, and what they are then. Regional letters
make flags from the left, so each one more changes which of them stands alone. -/
def pictures? (c : Char) : Start → Option (Int × Start)
  | .picture => if isJoiner c then some (0, .joined) else none
  | .skinTone =>
    if takesSkinTone c then some (0, .picture)
    else if isJoiner c then some (0, .joined)
    else none
  | .flagLetter => if isFlagLetter c then some (1, .flagLetters) else none
  | .flagLetters =>
    if isFlagLetter c then some (1, .flagLetters)
    else if isJoiner c then some (0, .joined)
    else none
  | .joined =>
    if c.toNat = 0x20e3 then some (0, .joinedKey)
    else if isFlagLetter c then some (1, .joinedLetter)
    else if isSkinTone c then some (0, .skinTone)
    else if c.toNat = 0xe007f then some (0, .joinedTags 0)
    else if isPicture c then some (0, .picture)
    else none
  | .joinedLetter => if isFlagLetter c then some (-1, .joinedEven) else none
  | .joinedEven =>
    if isFlagLetter c then some (3, .joinedOdd)
    else if isJoiner c then some (0, .joined)
    else none
  | .joinedOdd =>
    if isFlagLetter c then some (-1, .joinedEven)
    else if isJoiner c then some (0, .joined)
    else none
  | .joinedTags n =>
    if isTagLetter c && n < 6 then some (0, .joinedTags (n + 1))
    else if isTagDigit c && n ≤ 4 then some (0, .joinedDigits 1)
    else if c.toNat = 0x1f3f4 && 3 ≤ n then some (0, .picture)
    else none
  | .joinedDigits n =>
    if isTagDigit c && n < 3 then some (0, .joinedDigits (n + 1))
    else if c.toNat = 0x1f3f4 && n = 3 then some (0, .picture)
    else none
  | _ => none

/-! ## One character in front of others -/

/-- Puts a selector in front. Only letters and joined pictures are still seen behind it. -/
def Behind.select (b : Behind) (s : Selector) : Behind :=
  if b.start.isLetter || (s = .picture && b.start.isJoined) then ⟨b.start, some s⟩
  else ⟨.other, some s⟩

/-- What is behind a character that the selector there does not apply to. -/
def Behind.unselected (b : Behind) : Start :=
  if b.selector?.isNone || b.start.isLetter then b.start else .other

/-- What `c` adds in front of others that no selector keeps it off, and what they are then. -/
def inFrontOf (c : Char) (s : Start) : Int × Start :=
  if s.isJoinable && isJoiner c then (0, s.afterJoiner)
  else if s.isJoinable && isIgnorableMark c then (0, s)
  else
    match letters? c s, pictures? c s with
    | some r, _ => r
    | none, some r => r
    | none, none => (columnsOf c, .of c)

/-- What `c` adds, and what stands behind the character before it. -/
def addFront (c : Char) (b : Behind) : Int × Behind :=
  if b.selector? = some .picture && isSelectable c then
    (if b.start.isJoined then 0 else 2, ⟨.picture, none⟩)
  else if c.toNat ≤ 0xa0 then (1, {})
  else
    match Selector.of? c with
    | some s => (0, Behind.select ⟨b.unselected, none⟩ s)
    | none =>
      if b.selector? = some .text && isTextable c then (1, {})
      else if b.selector? = some .wide && isQuotationMark c then (2, {})
      else
        let (n, s) := inFrontOf c b.unselected
        (n, ⟨s, none⟩)

/-- The columns of all characters together, and what they are for one before them. -/
def measure : List Char → Int × Behind
  | [] => (0, {})
  | c :: cs =>
    let (n, b) := measure cs
    let (m, b) := addFront c b
    (m + n, b)

/-- The columns that a text takes on one line. -/
def columns (s : String) : Nat := (measure s.toList).1.toNat

theorem addFront_of_ascii (c : Char) (h : c.toNat < 0x80) : addFront c {} = (1, {}) := by
  have : c.toNat ≤ 0xa0 := by omega
  simp [addFront, this]

theorem measure_of_ascii (cs : List Char) (h : ∀ c ∈ cs, c.toNat < 0x80) :
    measure cs = ((cs.length : Int), {}) := by
  induction cs with
  | nil => rfl
  | cons c cs ih =>
    simp [measure, ih fun d hd => h d (.tail c hd), addFront_of_ascii c (h c (.head cs)),
      Int.add_comm]

end Rulebook.Text
