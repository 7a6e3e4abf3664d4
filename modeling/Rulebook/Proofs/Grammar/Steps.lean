import Mathlib
import Rulebook.Proofs.Grammar.Cursor

/-!
# Steps of the cursor

What each elementary step of the machine does to a state whose tokens end, and what a run may do to
the cursor, the counter and the notes.
-/

namespace Rulebook.Grammar.Cursor

open Rulebook.Grammar.Parser (first rest)

variable {α β : Type} {s t u : State}

/-! ## Runs -/

/-- The run ends with a result in a state, without a panic. -/
def Ends (q : Run α) (s : State) (a : α) (t : State) : Prop := q.on s = some (.ok (a, t))

namespace Ends

theorem pure (a : α) (s : State) : Ends (pure a) s a s := rfl

theorem bind {q : Run α} {f : α → Run β} {a : α} {b : β} (h : Ends q s a t) (k : Ends (f a) t b u) :
    Ends (q >>= f) s b u := by
  unfold Ends Run.on at *
  simp only [StateT.run_bind, ExceptT.run_bind, h, Option.bind_eq_bind, Option.bind_some]
  exact k

theorem modify (f : State → State) (s : State) : Ends (modify f) s () (f s) := rfl

theorem get (s : State) : Ends get s s s := rfl

/-- A reader that stops does not go on. -/
theorem stop {q : Reader α} {f : α → Reader β} {e : Stop} (h : Ends q.run s (.error e) t) :
    Ends (q >>= f).run s (.error e) t :=
  bind h (.pure _ t)

theorem andThen {q : Reader α} {f : α → Reader β} {a : α} {r : Except Stop β}
    (h : Ends q.run s (.ok a) t) (k : Ends (f a).run t r u) : Ends (q >>= f).run s r u :=
  bind h k

/-- A run does not stop as part of a reader. -/
theorem lift {q : Run α} {a : α} (h : Ends q s a t) :
    Ends (liftM q : Reader α).run s (.ok a) t := by
  have same : (liftM q : Reader α).run = Except.ok <$> q := rfl
  rw [same, map_eq_pure_bind]
  exact bind h (.pure _ t)

theorem unique {q : Run α} {a b : α} (h : Ends q s a t) (k : Ends q s b u) : a = b ∧ t = u := by
  unfold Ends at h k
  rw [h] at k
  cases k
  exact ⟨rfl, rfl⟩

end Ends

/-! ## States -/

namespace State

/-- The tokens from the cursor on. -/
def rest (s : State) : List Token := s.tokens.drop s.pos

/-- The end is still ahead. -/
def Ready (s : State) : Prop := ∃ t ∈ s.rest, t.kind = .eof

/-- After the next token. -/
def moved (s : State) : State := { s with pos := s.pos + 1 }

/-- After the next token, unless it is the end. -/
def next (s : State) : State := if (first s.rest).isEof then s else s.moved

/-- One level deeper, which is noted. -/
def entered (s : State) : State :=
  { s with
    depth := { s.depth with level := s.depth.level + 1 }
    notes := .enters (s.depth.level + 1) :: s.notes }

def left (s : State) : State :=
  { s with depth := s.depth.pop, notes := .leaves s.depth.level :: s.notes }

def begun (part : Part) (s : State) : State :=
  { s with notes := .begins part s.depth.level :: s.notes }

def named (rule : Option String) (s : State) : State := { s with rule }

theorem rest_begun (part : Part) (s : State) : (s.begun part).rest = s.rest := rfl

theorem rest_named (rule : Option String) (s : State) : (s.named rule).rest = s.rest := rfl

theorem Ready.rest_ne_nil (h : s.Ready) : s.rest ≠ [] := by
  obtain ⟨t, mem, -⟩ := h
  exact List.ne_nil_of_mem mem

theorem Ready.pos_lt (h : s.Ready) : s.pos < s.tokens.length := by
  have some := h.rest_ne_nil
  rw [rest, Ne, List.drop_eq_nil_iff] at some
  omega

theorem Ready.getElem? (h : s.Ready) : s.tokens[s.pos]? = some (first s.rest) := by
  have lt := h.pos_lt
  have whole : s.rest = s.tokens[s.pos] :: s.tokens.drop (s.pos + 1) :=
    List.drop_eq_getElem_cons lt
  rw [whole, Parser.first_cons, List.getElem?_eq_getElem lt]

theorem Ready.rest_eq (h : s.Ready) : s.rest = first s.rest :: s.moved.rest := by
  have lt := h.pos_lt
  have whole : s.rest = s.tokens[s.pos] :: s.moved.rest := List.drop_eq_getElem_cons lt
  rw [whole, Parser.first_cons]

theorem Ready.rest_next (h : s.Ready) : s.next.rest = Parser.rest s.rest := by
  have front : Parser.rest s.rest = if (first s.rest).isEof then s.rest else s.moved.rest := by
    rw [h.rest_eq]
    rfl
  unfold next
  rw [front]
  split <;> rfl

theorem Ready.moved (h : s.Ready) (ne : (first s.rest).kind ≠ .eof) : s.moved.Ready := by
  obtain ⟨t, mem, is⟩ := h
  have whole := Ready.rest_eq ⟨t, mem, is⟩
  rw [whole, List.mem_cons] at mem
  rcases mem with rfl | mem
  · exact absurd is ne
  · exact ⟨t, mem, is⟩

theorem next_of_ne_eof (ne : (first s.rest).kind ≠ .eof) : s.next = s.moved := by
  unfold next
  rw [Token.isEof_eq_false ne, if_neg Bool.false_ne_true]

theorem next_rule (s : State) : s.next.rule = s.rule := by
  unfold next
  split <;> rfl

theorem Ready.next (h : s.Ready) : s.next.Ready := by
  by_cases ends : (first s.rest).kind = .eof
  · unfold State.next
    rwa [Token.isEof_iff.mpr ends, if_pos rfl]
  · rw [next_of_ne_eof ends]
    exact h.moved ends

end State

/-! ## Elementary steps -/

open State

theorem ends_tokenAt {i : Nat} {x : Token} (found : s.tokens[i]? = some x) :
    Ends (tokenAt i) s x s := by
  refine .bind (.get s) ?_
  rw [found]
  exact .pure x s

theorem ends_peek (h : s.Ready) : Ends peek s (first s.rest) s := by
  have at_pos : min s.pos (s.tokens.length - 1) = s.pos := by
    have := h.pos_lt
    omega
  refine .bind (.get s) ?_
  rw [at_pos]
  exact ends_tokenAt h.getElem?

theorem ends_advance (h : s.Ready) : Ends advance s (first s.rest) s.next := by
  refine .bind (ends_peek h) ?_
  unfold State.next
  cases (first s.rest).isEof
  · exact .bind (.modify _ s) (.pure _ _)
  · exact .pure _ s

theorem ends_eat (h : s.Ready) (p : Token → Bool) :
    Ends (eat p) s (p (first s.rest)) (if p (first s.rest) then s.next else s) := by
  refine .bind (ends_peek h) ?_
  cases p (first s.rest)
  · exact .pure _ s
  · exact .bind (ends_advance h) (.pure _ _)

/-- Behind a token that was taken, its span is at hand. -/
theorem ends_previous (h : s.Ready) (ne : (first s.rest).kind ≠ .eof) :
    Ends previous s.next (first s.rest).span s.next := by
  rw [next_of_ne_eof ne]
  have behind : s.moved.tokens[s.pos]? = some (first s.rest) := h.getElem?
  exact .bind (.get _) (.bind (ends_tokenAt behind) (.pure _ _))

theorem ends_refuse (fault : Fault) (span : Span) (s : State) :
    Ends (refuse fault span : Reader α).run s (.error (.refused fault span s.rule)) s := rfl

theorem ends_expected (h : s.Ready) (what : Expected) :
    Ends (expected what : Reader α).run s
      (.error (.refused (.expected what (first s.rest)) (first s.rest).span s.rule)) s :=
  .andThen (.lift (ends_peek h)) (ends_refuse _ _ s)

theorem ends_expect_pos (h : s.Ready) {p : Token → Bool} (what : Expected)
    (is : p (first s.rest) = true) : Ends (expect p what).run s (.ok (first s.rest)) s.next := by
  refine .andThen (.lift (ends_peek h)) ?_
  rw [is]
  exact .lift (ends_advance h)

theorem ends_expect_neg (h : s.Ready) {p : Token → Bool} (what : Expected)
    (is : p (first s.rest) = false) :
    Ends (expect p what).run s
      (.error (.refused (.expected what (first s.rest)) (first s.rest).span s.rule)) s := by
  refine .andThen (.lift (ends_peek h)) ?_
  rw [is]
  exact ends_expected h what

theorem ends_enter (some : s.depth.room ≠ 0) : Ends enter.run s (.ok ()) s.entered := by
  have lt : s.depth.level < s.depth.limit := by
    unfold Depth.room at some
    omega
  refine .andThen (.lift (.get s)) ?_
  unfold Depth.push
  rw [if_pos lt]
  exact .pure _ s.entered

theorem ends_enter_deep (none : s.depth.room = 0) : Ends enter.run s (.error .tooDeep) s := by
  have le : ¬ s.depth.level < s.depth.limit := by
    unfold Depth.room at none
    omega
  refine .andThen (.lift (.get s)) ?_
  unfold Depth.push
  rw [if_neg le]
  exact .pure _ s

theorem ends_leave (s : State) : Ends leave s () s.left := .modify _ s

theorem ends_begin (part : Part) (s : State) : Ends (begin part) s () (s.begun part) := .modify _ s

/-! ## What a run may do -/

/-- Levels are entered up to the limit and left only above the base, and parts begin at the base. -/
def Note.Within (base limit : Nat) : Note → Prop
  | .enters level | .leaves level => base < level ∧ level ≤ limit
  | .begins _ level => level = base

/-- The cursor goes forward, a number of levels stay open, and what happens to the counter keeps
within its base and limit. -/
structure Leads (base open_ : Nat) (s t : State) : Prop where
  tokens : t.tokens = s.tokens
  pos : s.pos ≤ t.pos
  limit : t.depth.limit = s.depth.limit
  level : t.depth.level = s.depth.level + open_
  fits : open_ ≤ s.depth.room
  ready : t.Ready
  notes : ∃ new, t.notes = new ++ s.notes ∧ ∀ n ∈ new, n.Within base s.depth.limit

namespace Leads

variable {base m n : Nat}

theorem refl (h : s.Ready) : Leads base 0 s s :=
  ⟨rfl, le_rfl, rfl, rfl, Nat.zero_le _, h, [], rfl, by simp⟩

theorem room (h : Leads base n s t) : t.depth.room = s.depth.room - n := by
  unfold Depth.room
  rw [h.limit, h.level]
  omega

theorem trans (h : Leads base n s t) (k : Leads base m t u) : Leads base (n + m) s u := by
  obtain ⟨new, eq, all⟩ := h.notes
  obtain ⟨more, eq', all'⟩ := k.notes
  have room := h.room
  have fits := h.fits
  have fits' := k.fits
  refine ⟨k.tokens.trans h.tokens, h.pos.trans k.pos, k.limit.trans h.limit, ?_, by omega, k.ready,
    more ++ new, ?_, fun x mem => ?_⟩
  · rw [k.level, h.level, Nat.add_assoc]
  · rw [eq', eq, List.append_assoc]
  · rcases List.mem_append.mp mem with mem | mem
    · exact h.limit ▸ all' x mem
    · exact all x mem

theorem length_rest_le (h : Leads base n s t) : t.rest.length ≤ s.rest.length := by
  have pos := h.pos
  simp only [State.rest, List.length_drop, h.tokens]
  omega

theorem length_rest_lt (h : Leads base n s t) (ready : s.Ready) (further : s.pos < t.pos) :
    t.rest.length < s.rest.length := by
  have lt := ready.pos_lt
  simp only [State.rest, List.length_drop, h.tokens]
  omega

theorem depth (h : Leads base 0 s t) : t.depth = s.depth :=
  calc
    t.depth = ⟨t.depth.limit, t.depth.level⟩ := rfl
    _ = s.depth := by rw [h.limit, h.level, Nat.add_zero]

theorem next (h : s.Ready) : Leads base 0 s s.next := by
  have ready := h.next
  unfold State.next at *
  split
  · exact .refl h
  · next ne =>
    rw [if_neg ne] at ready
    exact ⟨rfl, Nat.le_succ _, rfl, rfl, Nat.zero_le _, ready, [], rfl, by simp⟩

theorem entered (h : s.Ready) (le : base ≤ s.depth.level) (some : s.depth.room ≠ 0) :
    Leads base 1 s s.entered := by
  have within : (Note.enters (s.depth.level + 1)).Within base s.depth.limit := by
    unfold Depth.room at some
    exact ⟨by omega, by omega⟩
  exact ⟨rfl, le_rfl, rfl, rfl, Nat.pos_of_ne_zero some, h, [_], rfl, by simpa using within⟩

/-- A level that is open can be left again. -/
theorem left (h : Leads base (n + 1) s t) (le : base ≤ s.depth.level) : Leads base n s t.left := by
  obtain ⟨new, eq, all⟩ := h.notes
  have level := h.level
  have fits := h.fits
  have within : (Note.leaves t.depth.level).Within base s.depth.limit := by
    unfold Depth.room at fits
    exact ⟨by omega, by omega⟩
  refine ⟨h.tokens, h.pos, h.limit, ?_, by omega, h.ready, .leaves t.depth.level :: new, ?_, ?_⟩
  · change t.depth.level - 1 = _
    omega
  · change _ :: t.notes = _
    rw [eq, List.cons_append]
  · exact List.forall_mem_cons.mpr ⟨within, all⟩

theorem begun (h : s.Ready) (part : Part) : Leads s.depth.level 0 s (s.begun part) :=
  ⟨rfl, le_rfl, rfl, rfl, Nat.zero_le _, h, [_], rfl, by simp [Note.Within]⟩

theorem named (h : s.Ready) (rule : Option String) : Leads base 0 s (s.named rule) :=
  ⟨rfl, le_rfl, rfl, rfl, Nat.zero_le _, h, [], rfl, by simp⟩

end Leads

/-- The end is ahead, the counter is not below the base, and so many levels can be entered. -/
structure Stands (base room : Nat) (s : State) : Prop where
  ready : s.Ready
  base_le : base ≤ s.depth.level
  room_eq : s.depth.room = room

namespace Stands

variable {base room n : Nat}

theorem leads (h : Stands base room s) (k : Leads base n s t) : Stands base (room - n) t := by
  refine ⟨k.ready, ?_, by rw [k.room, h.room_eq]⟩
  rw [k.level]
  exact Nat.le_add_right_of_le h.base_le

theorem next (h : Stands base room s) : Stands base room s.next := h.leads (.next h.ready)

theorem entering (h : Stands base (room + 1) s) : Leads base 1 s s.entered :=
  .entered h.ready h.base_le (by rw [h.room_eq]; exact Nat.succ_ne_zero room)

theorem entered (h : Stands base (room + 1) s) : Stands base room s.entered := h.leads h.entering

theorem enters (h : Stands base (room + 1) s) : Ends enter.run s (.ok ()) s.entered :=
  ends_enter (by rw [h.room_eq]; exact Nat.succ_ne_zero room)

end Stands

end Rulebook.Grammar.Cursor
