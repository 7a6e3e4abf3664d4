import Mathlib
import Rulebook.Proofs.Rule.WellFormed
import Rulebook.Rule

/-!
# The pieces of a displayed rule

A displayed tree is put together from pieces, and each of them ends where the next one begins.
-/

namespace Rulebook

/-! ## Pieces of trees -/

def UnaryOp.operator : UnaryOp → Operator
  | .negate => .minus
  | .not => .bang

def ArithOp.operator : ArithOp → Operator
  | .add => .plus
  | .subtract => .minus
  | .multiply => .star
  | .divide => .slash
  | .modulo => .percent

def CompareOp.operator : CompareOp → Operator
  | .equal => .equal
  | .notEqual => .notEqual
  | .greater => .greater
  | .less => .less
  | .greaterEqual => .greaterEqual
  | .lessEqual => .lessEqual

def LogicOp.operator : LogicOp → Operator
  | .and => .and
  | .or => .or

theorem UnaryOp.text_operator (o : UnaryOp) : o.operator.text = o.symbol := by cases o <;> rfl

theorem ArithOp.text_operator (o : ArithOp) : o.operator.text = o.symbol := by cases o <;> rfl

theorem CompareOp.text_operator (o : CompareOp) : o.operator.text = o.symbol := by cases o <;> rfl

theorem LogicOp.text_operator (o : LogicOp) : o.operator.text = o.symbol := by cases o <;> rfl

namespace Ink

/-- A number, its sign apart. -/
def signed (form : List Char → Ink) : List Char → List Ink
  | '-' :: ds => [op .minus, form ds]
  | ds => [form ds]

def parenthesized (l : List Ink) (o : Operator) (r : List Ink) : List Ink :=
  mark .openParen :: (l ++ space :: op o :: space :: (r ++ [mark .closeParen]))

/-- With commas between them. -/
def listed : List (List Ink) → List Ink
  | [] => []
  | [ks] => ks
  | ks :: ls :: more => ks ++ mark .comma :: space :: listed (ls :: more)

def applied (args : List (List Ink)) : List Ink :=
  mark .openParen :: (listed args ++ [mark .closeParen])

end Ink

open Ink

def Literal.inks : Literal → List Ink
  | .int n => signed Ink.integer (toString n.toInt).toList
  | .float x => signed Ink.float (Number.floatLiteral x).toList
  | .text s => [quoted s]
  | .bool b => [word (boolText b)]
  | .nil => [word "nil"]

namespace Expr

mutual

def inks : Expr → List Ink
  | literal v _ => v.inks
  | ident name _ => [word name]
  | unary o operand _ => op o.operator :: operand.inks
  | arith o l r _ => parenthesized l.inks o.operator r.inks
  | compare o l r _ => parenthesized l.inks o.operator r.inks
  | logic o l r _ => parenthesized l.inks o.operator r.inks
  | member object name _ => object.inks ++ [mark .dot, word name]
  | index object key _ => object.inks ++ mark .openBracket :: (key.inks ++ [mark .closeBracket])
  | call name args _ => word name :: applied (inksOfAll args)
  | method receiver name args _ =>
    receiver.inks ++ mark .dot :: word name :: applied (inksOfAll args)

def inksOfAll : List Expr → List (List Ink)
  | [] => []
  | e :: es => e.inks :: inksOfAll es

end

theorem inksOfAll_eq (es : List Expr) : inksOfAll es = es.map inks := by
  induction es with
  | nil => rfl
  | cons e es ih => rw [inksOfAll, ih, List.map_cons]

theorem shownAll_eq (es : List Expr) : shownAll es = es.map shown := by
  induction es with
  | nil => rfl
  | cons e es ih => rw [shownAll, ih, List.map_cons]

end Expr

/-! ## Their text -/

namespace Ink

theorem texts_signed {form : List Char → Ink} (text : ∀ ds, (form ds).text = ds) (cs : List Char) :
    texts (signed form cs) = cs := by
  unfold signed
  split
  · rw [texts_cons, texts_cons, text, texts_nil, List.append_nil]
    rfl
  · rw [texts_cons, text, texts_nil, List.append_nil]

theorem texts_parenthesized {ls rs : List Ink} {l r symbol : String} {o : Operator}
    (text : o.text = symbol) (left : texts ls = l.toList) (right : texts rs = r.toList) :
    texts (parenthesized ls o rs) = ("(" ++ l ++ " " ++ symbol ++ " " ++ r ++ ")").toList := by
  simp [parenthesized, mark, op, space, blank, Mark.char, text, left, right]

theorem texts_listed (all : List (List Ink)) :
    texts (listed all) = ", ".toList.intercalate (all.map texts) := by
  fun_induction listed all with
  | case1 => rfl
  | case2 ks => simp
  | case3 ks ls more ih => simp [ih, mark, space, blank, Mark.char]

theorem texts_applied {args : List Expr} (all : ∀ a ∈ args, texts a.inks = a.shown.toList) :
    texts (applied (Expr.inksOfAll args)) =
      ("(" ++ ", ".intercalate (Expr.shownAll args) ++ ")").toList := by
  have same : (args.map Expr.inks).map texts = (args.map Expr.shown).map String.toList := by
    rw [List.map_map, List.map_map]
    exact List.map_congr_left all
  unfold applied
  rw [Expr.inksOfAll_eq, Expr.shownAll_eq, texts_cons, texts_append, texts_listed, same]
  simp only [String.toList_append, String.toList_intercalate]
  rfl

end Ink

theorem Literal.texts_inks (v : Literal) : texts v.inks = v.shown.toList := by
  cases v with
  | int n => exact texts_signed (fun _ => rfl) _
  | float x => exact texts_signed (fun _ => rfl) _
  | text s => simp [inks, quoted, shown]
  | bool b => simp [inks, word, shown]
  | nil => simp [inks, word, shown]

theorem Expr.WellFormed.texts_inks {e : Expr} (h : e.WellFormed) :
    texts e.inks = e.shown.toList := by
  induction h with
  | @literal v => exact v.texts_inks
  | ident => simp [inks, shown, word]
  | @unary o _ _ _ _ ih => simp [inks, shown, ih, op, o.text_operator]
  | @arith o _ _ _ _ _ ih ih' => exact texts_parenthesized o.text_operator ih ih'
  | @compare o _ _ _ _ _ ih ih' => exact texts_parenthesized o.text_operator ih ih'
  | @logic o _ _ _ _ _ ih ih' => exact texts_parenthesized o.text_operator ih ih'
  | member _ _ _ ih => simp [inks, shown, ih, mark, word, Mark.char]
  | index _ _ _ ih ih' => simp [inks, shown, ih, ih', mark, Mark.char]
  | call _ _ ih =>
    rw [inks, shown, texts_cons, texts_applied ih]
    simp [word]
  | method _ _ _ _ ih ih' =>
    rw [inks, shown, texts_append, texts_cons, texts_cons, texts_applied ih', ih]
    simp [mark, word, Mark.char]

/-! ## Numbers -/

namespace Ink

variable {form : List Char → Ink}

theorem signed_digit {d : Char} {ds : List Char} (digit : d.isDigit = true) :
    signed form (d :: ds) = [form (d :: ds)] := by
  unfold signed
  split
  · next eq =>
    cases eq
    cases digit
  · rfl

theorem signed_all {ds : List Char} (some : ds ≠ []) (all : ∀ d ∈ ds, d.isDigit = true) :
    signed form ds = [form ds] := by
  cases ds with
  | nil => exact absurd rfl some
  | cons d ds => exact signed_digit (all d List.mem_cons_self)

theorem signed_pointed {body : List Char} (pointed : Number.Pointed body) :
    signed form body = [form body] := by
  obtain ⟨whole, fraction, rfl, some, -, wholes, -⟩ := pointed
  cases whole with
  | nil => exact absurd rfl some
  | cons d whole => exact signed_digit (wholes d List.mem_cons_self)

/-- The pieces of an integer that has an opposite. -/
theorem signed_integer_cases {i : Int64} (least : -0x8000000000000000 < i.toInt) :
    ∃ ds n, ds ≠ [] ∧ (∀ d ∈ ds, d.isDigit = true) ∧ Number.readInt? ds = some n ∧
      ((signed integer (toString i.toInt).toList = [integer ds] ∧ i = n) ∨
        (signed integer (toString i.toInt).toList = [op .minus, integer ds] ∧ i = -n ∧
          Number.toInt64? (-n.toInt) = some i)) := by
  obtain ⟨n, lt, cases⟩ := Number.toString_toInt_cases i least
  refine ⟨Nat.toDigits 10 n, Int64.ofInt n, Nat.toDigits_ne_nil, Number.all_isDigit_toDigits n,
    Number.readInt?_toDigits n lt, ?_⟩
  rcases cases with ⟨eq, text⟩ | ⟨eq, opposite, text⟩
  · rw [text]
    exact .inl ⟨signed_all Nat.toDigits_ne_nil (Number.all_isDigit_toDigits n), eq⟩
  · rw [text]
    exact .inr ⟨rfl, eq, opposite⟩

theorem signed_float_cases {x : Float} (finite : x.isFinite = true) :
    ∃ body, Number.Pointed body ∧
      (signed float (Number.floatLiteral x).toList = [float body] ∨
        signed float (Number.floatLiteral x).toList = [op .minus, float body]) := by
  obtain ⟨body, pointed, text | text⟩ := Number.pointed_floatLiteral finite
  · rw [text]
    exact ⟨body, pointed, .inl (signed_pointed pointed)⟩
  · rw [text]
    exact ⟨body, pointed, .inr rfl⟩

end Ink

/-! ## Where each piece ends -/

namespace Ink

variable {rest : List Char}

/-- A piece that a tree may begin with. -/
def Leads (k : Ink) : Prop :=
  k.piece ≠ .blank ∧ k.piece ≠ .operator .equal ∧ k.piece ≠ .operator .assign

theorem Stands.notFirst {k : Ink} (h : k.Stands rest) (leads : k.Leads) :
    NotFirst Piece.isBlank (k.text ++ rest) ∧ NotFirst (· = '=') (k.text ++ rest) := by
  obtain ⟨c, cs, text, first⟩ := h
  rw [text]
  constructor
  · rintro _ ⟨⟩
    exact Piece.isBlank_of_first? first leads.1
  · rintro _ ⟨⟩
    rw [decide_eq_false_iff_not]
    rintro rfl
    obtain ⟨o, n, first', which⟩ := Piece.first?_equals (cs ++ rest)
    rw [first] at first'
    have piece := congrArg Prod.fst (Option.some.inj first')
    rcases which with rfl | rfl
    · exact leads.2.1 piece
    · exact leads.2.2 piece

/-- The pieces of a tree, in front of whatever may stand behind one. -/
structure Sits (ks : List Ink) : Prop where
  stand : ∀ rest, NotFirst Piece.isWordChar rest → NotFirst (· = '.') rest → Stand ks rest
  front : ∃ k more, ks = k :: more ∧ k.Leads

theorem Sits.notFirst {ks : List Ink} (h : Sits ks) (stand : Stand ks rest) :
    NotFirst Piece.isBlank (texts ks ++ rest) ∧ NotFirst (· = '=') (texts ks ++ rest) := by
  obtain ⟨k, more, rfl, leads⟩ := h.front
  rw [texts_cons, List.append_assoc]
  exact stand.1.notFirst leads

theorem Sits.append {ks ls : List Ink} (front : ∃ k more, ks = k :: more ∧ k.Leads)
    (stand : ∀ rest, NotFirst Piece.isWordChar rest → NotFirst (· = '.') rest →
      Stand (ks ++ ls) rest) : Sits (ks ++ ls) := by
  obtain ⟨k, more, rfl, leads⟩ := front
  exact ⟨stand, k, more ++ ls, rfl, leads⟩

/-- What may close a tree. -/
theorem Sits.stand_cons {ks : List Ink} (h : Sits ks) {c : Char}
    (closes : Piece.isWordChar c = false ∧ c ≠ '.') (rest : List Char) : Stand ks (c :: rest) :=
  h.stand _ (notFirst_cons closes.1 rest) (notFirst_cons (by simpa using closes.2) rest)

theorem stands_space (stop : NotFirst Piece.isBlank rest) : space.Stands rest :=
  stands_blank (by simp [Piece.isBlank]) stop

theorem stand_parenthesized {ls rs : List Ink} (left : Sits ls) (o : Operator) (right : Sits rs) :
    Stand (parenthesized ls o rs) rest := by
  have behind : Stand rs (texts [mark .closeParen] ++ rest) := right.stand_cons (by decide) rest
  have front := right.notFirst behind
  have operator : NotFirst Piece.isBlank (o.text.toList ++ ' ' :: (texts rs ++ ')' :: rest)) := by
    cases o <;> exact notFirst_cons rfl _
  refine ⟨stands_mark _, stand_append.mpr ⟨left.stand_cons (by decide) _, ?_⟩⟩
  refine ⟨stands_space ?_, ?_, stands_space ?_, stand_append.mpr ⟨behind, stands_mark _, trivial⟩⟩
  · simpa [space, blank, op, mark, Mark.char] using operator
  · exact stands_op o
  · simpa using front.1

theorem sits_parenthesized {ls rs : List Ink} (left : Sits ls) (o : Operator) (right : Sits rs) :
    Sits (parenthesized ls o rs) :=
  ⟨fun _ _ _ => stand_parenthesized left o right, _, _, rfl, nofun, nofun, nofun⟩

theorem stand_listed {all : List (List Ink)} (sits : ∀ ks ∈ all, Sits ks) :
    Stand (listed all) (')' :: rest) := by
  fun_induction listed all with
  | case1 => trivial
  | case2 ks => exact (sits ks List.mem_cons_self).stand_cons (by decide) rest
  | case3 ks ls more ih =>
    have others := ih fun ks mem => sits ks (List.mem_cons_of_mem _ mem)
    refine stand_append.mpr ⟨(sits ks List.mem_cons_self).stand_cons (by decide) _, ?_⟩
    refine ⟨stands_mark _, stands_space ?_, others⟩
    have second := sits ls (List.mem_cons_of_mem _ List.mem_cons_self)
    obtain ⟨k, ms, rfl, leads⟩ := second.front
    cases more with
    | nil =>
      rw [listed, texts_cons, List.append_assoc]
      rw [listed] at others
      exact (others.1.notFirst leads).1
    | cons ns more =>
      rw [listed, List.cons_append, texts_cons, List.append_assoc]
      rw [listed, List.cons_append] at others
      exact (others.1.notFirst leads).1

theorem stand_applied {args : List Expr} (sits : ∀ a ∈ args, Sits a.inks) :
    Stand (applied (Expr.inksOfAll args)) rest := by
  have all : ∀ ks ∈ Expr.inksOfAll args, Sits ks := by
    rw [Expr.inksOfAll_eq]
    exact List.forall_mem_map.mpr sits
  exact ⟨stands_mark _, stand_append.mpr ⟨stand_listed all, stands_mark _, trivial⟩⟩

end Ink

theorem isWord_boolText (b : Bool) : IsWord (boolText b) := by cases b <;> decide

theorem sits_word {s : String} (is : IsWord s) : Sits [word s] :=
  ⟨fun _ stop _ => ⟨stands_word is stop, trivial⟩, _, _, rfl, nofun, nofun, nofun⟩

theorem Literal.WellFormed.sits {v : Literal} (h : v.WellFormed) : Sits v.inks := by
  cases v with
  | int n =>
    obtain ⟨ds, -, some, all, -, ⟨eq, -⟩ | ⟨eq, -⟩⟩ := signed_integer_cases h
    · rw [inks, eq]
      exact ⟨fun _ stop point => ⟨stands_integer some all stop point, trivial⟩, _, _, rfl, nofun,
        nofun, nofun⟩
    · rw [inks, eq]
      exact ⟨fun _ stop point => ⟨stands_minus, stands_integer some all stop point, trivial⟩, _, _,
        rfl, nofun, nofun, nofun⟩
  | float x =>
    obtain ⟨body, pointed, eq | eq⟩ := signed_float_cases h
    · rw [inks, eq]
      exact ⟨fun _ stop _ => ⟨stands_float pointed stop, trivial⟩, _, _, rfl, nofun, nofun, nofun⟩
    · rw [inks, eq]
      exact ⟨fun _ stop _ => ⟨stands_minus, stands_float pointed stop, trivial⟩, _, _, rfl, nofun,
        nofun, nofun⟩
  | text s => exact ⟨fun _ _ _ => ⟨stands_quoted s, trivial⟩, _, _, rfl, nofun, nofun, nofun⟩
  | bool b => exact sits_word (isWord_boolText b)
  | nil => exact sits_word (by decide)

/-- Only numbers must not be followed by a point. -/
theorem Expr.WellFormed.sits {e : Expr} (h : e.WellFormed) :
    Sits e.inks ∧ (e.isChain → ∀ rest, NotFirst Piece.isWordChar rest → Stand e.inks rest) := by
  induction h with
  | literal is => exact ⟨is.sits, False.elim⟩
  | ident is => exact ⟨sits_word is.1, fun _ _ stop => ⟨stands_word is.1 stop, trivial⟩⟩
  | @unary o e _ _ _ ih =>
    refine ⟨⟨fun rest stop point => ?_, _, _, rfl, ?_⟩, False.elim⟩
    · have behind := ih.1.stand rest stop point
      refine ⟨?_, behind⟩
      cases o with
      | negate => exact stands_minus
      | not => exact stands_bang (ih.1.notFirst behind).2
    · cases o <;> exact ⟨nofun, nofun, nofun⟩
  | @arith o _ _ _ _ _ ih ih' => exact ⟨sits_parenthesized ih.1 o.operator ih'.1, False.elim⟩
  | @compare o _ _ _ _ _ ih ih' => exact ⟨sits_parenthesized ih.1 o.operator ih'.1, False.elim⟩
  | @logic o _ _ _ _ _ ih ih' => exact ⟨sits_parenthesized ih.1 o.operator ih'.1, False.elim⟩
  | @member o name _ _ chain is ih =>
    have stand (rest : List Char) (stop : NotFirst Piece.isWordChar rest) :
        Stand (o.inks ++ [mark .dot, word name]) rest :=
      stand_append.mpr ⟨ih.2 chain _ (notFirst_cons rfl _), stands_mark _, stands_word is.1 stop,
        trivial⟩
    exact ⟨.append ih.1.front fun rest stop _ => stand rest stop, fun _ => stand⟩
  | @index o k _ _ chain _ ih ih' =>
    have stand (rest : List Char) :
        Stand (o.inks ++ mark .openBracket :: (k.inks ++ [mark .closeBracket])) rest :=
      stand_append.mpr ⟨ih.2 chain _ (notFirst_cons rfl _), stands_mark _,
        stand_append.mpr ⟨ih'.1.stand_cons (by decide) rest, stands_mark _, trivial⟩⟩
    exact ⟨.append ih.1.front fun rest _ _ => stand rest, fun _ rest _ => stand rest⟩
  | @call name args _ is _ ih =>
    have stand (rest : List Char) : Stand (word name :: applied (inksOfAll args)) rest :=
      ⟨stands_word is.1 (notFirst_cons rfl _), stand_applied fun a mem => (ih a mem).1⟩
    exact ⟨⟨fun rest _ _ => stand rest, _, _, rfl, nofun, nofun, nofun⟩, fun _ rest _ => stand rest⟩
  | @method o name args _ _ chain is _ ih ih' =>
    have stand (rest : List Char) :
        Stand (o.inks ++ mark .dot :: word name :: applied (inksOfAll args)) rest :=
      stand_append.mpr ⟨ih.2 chain _ (notFirst_cons rfl _), stands_mark _,
        stands_word is.1 (notFirst_cons rfl _), stand_applied fun a mem => (ih' a mem).1⟩
    exact ⟨.append ih.1.front fun rest _ _ => stand rest, fun _ rest _ => stand rest⟩

/-! ## Statements and rules -/

namespace Ink

/-- A new line, with what it is indented by. -/
def line (depth : Nat) : Ink := blank ('\n' :: List.replicate (4 * depth) ' ')

theorem stands_line (depth : Nat) {rest : List Char} (stop : NotFirst Piece.isBlank rest) :
    (line depth).Stands rest := by
  refine stands_blank (List.forall_mem_cons.mpr ⟨rfl, fun c mem => ?_⟩) stop
  rw [List.eq_of_mem_replicate mem]
  rfl

end Ink

namespace Statement

def inks : Statement → List Ink
  | assign target value _ =>
    target.inks ++ space :: op .assign :: space :: (value.inks ++ [mark .semicolon])
  | call e _ => e.inks ++ [mark .semicolon]

theorem WellFormed.texts_inks {s : Statement} (h : s.WellFormed) :
    texts s.inks = s.shown.toList := by
  cases s with
  | assign target value =>
    simp [inks, shown, h.1.texts_inks, h.2.2.texts_inks, space, blank, op, mark, Operator.text,
      Mark.char]
  | call e => simp [inks, shown, h.1.texts_inks, mark, Mark.char]

theorem WellFormed.stand {s : Statement} (h : s.WellFormed) (rest : List Char) :
    Stand s.inks rest := by
  cases s with
  | assign target value =>
    have behind : Stand value.inks (texts [mark .semicolon] ++ rest) :=
      h.2.2.sits.1.stand_cons (by decide) rest
    have front := h.2.2.sits.1.notFirst behind
    refine stand_append.mpr ⟨h.1.sits.1.stand_cons (by decide) _, stands_space ?_, ?_,
      stands_space ?_, stand_append.mpr ⟨behind, stands_mark _, trivial⟩⟩
    · exact notFirst_cons rfl _
    · exact stands_op _
    · simpa using front.1
  | call e =>
    exact stand_append.mpr ⟨h.1.sits.1.stand_cons (by decide) _, stands_mark _, trivial⟩

/-- A statement begins with a chain. -/
theorem WellFormed.front {s : Statement} (h : s.WellFormed) :
    ∃ (e : Expr) (ks : List Ink), s.inks = e.inks ++ ks ∧ e.WellFormed := by
  cases s with
  | assign target value => exact ⟨target, _, rfl, h.1⟩
  | call e => exact ⟨e, _, rfl, h.1⟩

theorem WellFormed.notFirst {s : Statement} (h : s.WellFormed) (rest : List Char) :
    NotFirst Piece.isBlank (texts s.inks ++ rest) := by
  have stand := h.stand rest
  obtain ⟨e, ks, eq, wellFormed⟩ := h.front
  rw [eq] at stand ⊢
  rw [texts_append, List.append_assoc]
  exact (wellFormed.sits.1.notFirst (stand_append.mp stand).1).1

def inksOfAll (ss : List Statement) : List Ink := ss.flatMap fun s => line 2 :: s.inks

theorem texts_inksOfAll {ss : List Statement} (all : ∀ s ∈ ss, s.WellFormed) :
    texts (inksOfAll ss) ++ ['\n'] =
      '\n' :: (String.join (ss.map fun s => Rule.indent 2 s.shown)).toList := by
  induction ss with
  | nil => rfl
  | cons s ss ih =>
    have others := ih fun s mem => all s (List.mem_cons_of_mem _ mem)
    have this := (all s List.mem_cons_self).texts_inks
    unfold inksOfAll at others ⊢
    rw [List.flatMap_cons, texts_append, texts_cons, this, List.append_assoc, others, List.map_cons,
      String.join_cons]
    simp [line, blank, Rule.indent]

theorem stand_inksOfAll {ss : List Statement} (all : ∀ s ∈ ss, s.WellFormed) (rest : List Char) :
    Stand (inksOfAll ss) rest := by
  induction ss with
  | nil => exact trivial
  | cons s ss ih =>
    have this := all s List.mem_cons_self
    have others := ih fun s mem => all s (List.mem_cons_of_mem _ mem)
    unfold inksOfAll at others ⊢
    rw [List.flatMap_cons]
    refine stand_append.mpr ⟨⟨stands_line 2 (this.notFirst _), this.stand _⟩, others⟩

end Statement

namespace Rule

def descriptionInks : Option String → List Ink
  | none => []
  | some d => [space, quoted d]

/-- What stands between the braces, and the closing one. -/
def bodyInks (r : Rule) : List Ink :=
  line 1 :: word "When" :: line 2 :: (r.condition.inks ++ line 1 :: word "Then" ::
    (Statement.inksOfAll r.actions ++ [line 0, mark .closeBrace]))

def inks (r : Rule) : List Ink :=
  word "rule" :: space :: word r.name :: (descriptionInks r.description ++ space ::
    word "salience" :: space :: (signed integer (toString r.salience.toInt).toList ++ space ::
      mark .openBrace :: r.bodyInks))

namespace WellFormed

variable {r : Rule}

theorem texts_inks (h : r.WellFormed) : texts r.inks = r.shown.toList := by
  have actions := Statement.texts_inksOfAll h.actions
  have salience : texts (signed integer (toString r.salience.toInt).toList) =
      (toString r.salience.toInt).toList := texts_signed (fun _ => rfl) _
  have description : texts (descriptionInks r.description) =
      (r.description.elim "" fun d => " " ++ Text.Quoted.shown d).toList := by
    cases r.description <;> simp [descriptionInks, space, blank, quoted]
  have last : texts (Statement.inksOfAll r.actions) ++
      ((line 0).text ++ ((mark .closeBrace).text ++ [])) =
        '\n' :: ((String.join (r.actions.map fun a => indent 2 a.shown)).toList ++ ['\x7d']) := by
    change _ ++ (['\n'] ++ ['\x7d']) = _
    rw [← List.append_assoc, actions, List.cons_append]
  unfold inks bodyInks shown
  simp only [texts_cons, texts_append, texts_nil, salience, description, h.condition.texts_inks,
    last]
  simp [word, space, blank, line, mark, Mark.char, indent]

theorem stand_bodyInks (h : r.WellFormed) : Stand r.bodyInks [] := by
  have closing : Stand [line 0, mark .closeBrace] [] :=
    ⟨stands_line 0 (notFirst_cons rfl _), stands_mark _, trivial⟩
  have actions : Stand (Statement.inksOfAll r.actions ++ [line 0, mark .closeBrace]) [] :=
    stand_append.mpr ⟨Statement.stand_inksOfAll h.actions _, closing⟩
  have front : NotFirst Piece.isWordChar
      (texts (Statement.inksOfAll r.actions ++ [line 0, mark .closeBrace]) ++ []) := by
    cases r.actions <;> exact notFirst_cons rfl _
  have behind : Stand (line 1 :: word "Then" ::
      (Statement.inksOfAll r.actions ++ [line 0, mark .closeBrace])) [] :=
    ⟨stands_line 1 (notFirst_cons rfl _), stands_word (by decide) front, actions⟩
  have condition := h.condition.sits.1.stand_cons (c := '\n') (by decide)
    (List.replicate 4 ' ' ++ texts (word "Then" ::
      (Statement.inksOfAll r.actions ++ [line 0, mark .closeBrace])) ++ [])
  refine ⟨stands_line 1 (notFirst_cons rfl _), stands_word (by decide) (notFirst_cons rfl _),
    stands_line 2 ?_, stand_append.mpr ⟨condition, behind⟩⟩
  rw [texts_append, List.append_assoc]
  exact (h.condition.sits.1.notFirst condition).1

theorem stand_description (d : Option String) {rest : List Char} :
    Stand (descriptionInks d) rest := by
  cases d with
  | none => exact trivial
  | some d =>
    refine ⟨stands_space ?_, stands_quoted d, trivial⟩
    rw [texts_cons, List.append_assoc]
    change NotFirst _ ((Text.Quoted.shown d).toList ++ _)
    rw [Text.Quoted.toList_shown]
    exact notFirst_cons rfl _

theorem stand (h : r.WellFormed) : Stand r.inks [] := by
  have salience : (Literal.int r.salience).WellFormed := h.salience
  have behind : Stand (space :: mark .openBrace :: r.bodyInks) [] :=
    ⟨stands_space (notFirst_cons rfl _), stands_mark _, stand_bodyInks h⟩
  have number : Stand (signed integer (toString r.salience.toInt).toList)
      (texts (space :: mark .openBrace :: r.bodyInks) ++ []) :=
    salience.sits.stand_cons (by decide) _
  have front := (salience.sits.notFirst number).1
  have behindName (ls : List Ink) : NotFirst Piece.isWordChar
      (texts (descriptionInks r.description ++ space :: ls) ++ []) := by
    cases r.description <;> exact notFirst_cons rfl _
  have behindRule (ls : List Ink) : NotFirst Piece.isBlank (texts (word r.name :: ls) ++ []) := by
    obtain ⟨c, cs, name, start, -⟩ := h.name.1
    change NotFirst _ (r.name.toList ++ texts ls ++ [])
    rw [name]
    exact notFirst_cons (Piece.isWordStart_cases start).2.1 _
  refine ⟨stands_word (by decide) (notFirst_cons rfl _), stands_space (behindRule _),
    stands_word h.name.1 (behindName _), stand_append.mpr ⟨stand_description _, stands_space
      (notFirst_cons rfl _), stands_word (by decide) (notFirst_cons rfl _), stands_space ?_,
        stand_append.mpr ⟨number, behind⟩⟩⟩
  rw [texts_append, List.append_assoc]
  exact front

end WellFormed

end Rule

end Rulebook
