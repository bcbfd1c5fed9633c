import Calculator.Span

/-!
# Tokens

The symbols that a line of arithmetic consists of. Every symbol but a number is a single
character, and `Symbol.ofChar?_eq_some_iff` says which; the text of a number is kept as
it was written.
-/

namespace Calculator

/-- The four operations. -/
inductive Op
  | add
  | sub
  | mul
  | div
deriving DecidableEq, Repr

namespace Op

/-- The character that is written for an operation. -/
def char : Op → Char
  | add => '+'
  | sub => '-'
  | mul => '*'
  | div => '/'

/-- Whether an operation binds as weakly as a sum. -/
def isAdditive : Op → Bool
  | add | sub => true
  | mul | div => false

/-- Whether an operation binds as strongly as a product. -/
def isMultiplicative (op : Op) : Bool := !op.isAdditive

/-- What an operation does to two numbers: IEEE arithmetic, so that a division by zero has
a value. -/
def apply : Op → Float → Float → Float
  | add, x, y => x + y
  | sub, x, y => x - y
  | mul, x, y => x * y
  | div, x, y => x / y

/-- Different operations are written differently. -/
theorem char_inj {a b : Op} : a.char = b.char ↔ a = b := by
  cases a <;> cases b <;> decide

end Op

/-- What a token can be. -/
inductive Symbol
  | number (literal : String)
  | op (o : Op)
  | opening
  | closing
deriving DecidableEq, Repr

namespace Symbol

/-- The symbol that a single character is. A digit is none: it only begins a number. -/
def ofChar? : Char → Option Symbol
  | '(' => some opening
  | ')' => some closing
  | '+' => some (op .add)
  | '-' => some (op .sub)
  | '*' => some (op .mul)
  | '/' => some (op .div)
  | _ => none

/-- A symbol as it is written. -/
def text : Symbol → String
  | number literal => literal
  | op o => o.char.toString
  | opening => "("
  | closing => ")"

/-- The operation that a symbol stands for. -/
def op? : Symbol → Option Op
  | op o => some o
  | _ => none

/-- A character is a symbol exactly if it is that symbol's whole text. -/
theorem ofChar?_eq_some_iff {c : Char} {s : Symbol} :
    ofChar? c = some s ↔ s.text = c.toString ∧ ∀ literal, s ≠ number literal := by
  constructor
  · intro h
    unfold ofChar? at h
    split at h <;> simp_all <;> subst h <;> simp [text, Op.char]
  · rintro ⟨ht, hn⟩
    have hc : ∀ d : Char, d.toString = c.toString → d = c := by
      intro d hd
      have := congrArg String.toList hd
      simpa using this
    cases s with
    | number literal => exact absurd rfl (hn literal)
    | op o =>
        have := hc o.char ht
        subst this
        cases o <;> rfl
    | opening => have := hc '(' ht; subst this; rfl
    | closing => have := hc ')' ht; subst this; rfl

end Symbol

/-- A symbol with its place in the text. -/
abbrev Token := Located Symbol

/-- A character that is part of no token and was passed over. -/
abbrev Notice := Located Char

/-- What the user is told about a character that was passed over. -/
def Notice.message (n : Notice) : String := s!"skipped invalid character '{n.val}'"

/-- What a text falls into: tokens, and characters that were passed over. -/
inductive Item
  | token (t : Token)
  | notice (n : Notice)
deriving DecidableEq, Repr

namespace Item

/-- The place of an item in the text. -/
def span : Item → Span
  | token t => t.span
  | notice n => n.span

/-- The token that an item is. -/
def token? : Item → Option Token
  | token t => some t
  | notice _ => none

/-- The notice that an item is. -/
def notice? : Item → Option Notice
  | token _ => none
  | notice n => some n

end Item

/-- The tokens of a text, in order. -/
def tokensOf (items : List Item) : List Token := items.filterMap Item.token?

/-- The notices of a text, in order. -/
def noticesOf (items : List Item) : List Notice := items.filterMap Item.notice?

end Calculator
