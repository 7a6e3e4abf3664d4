import Mathlib
import Rulebook.Proofs.Expr.Branch
import Rulebook.Proofs.Grammar.Blind
import Rulebook.Proofs.Grammar.Completeness
import Rulebook.Proofs.Grammar.Respan
import Rulebook.Proofs.Token.Stretch

/-!
# Where the nodes of a tree stand

Each node of a tree that is derived has a segment of the tokens to itself: its span reaches from the
first of these to the last, they alone derive the node, and its parts have segments one behind the
other within them.
-/

namespace Rulebook

/-- The spans lie within the whole, one behind the other. -/
structure Span.Nests (whole : Span) (parts : List Span) : Prop where
  inside : ∀ s ∈ parts, whole.start ≤ s.start ∧ s.stop ≤ whole.stop
  apart : parts.Pairwise fun s s' => s.stop ≤ s'.start

namespace Grammar

/-! ## Segments -/

/-- The tokens stand one behind the other. -/
structure Ordered (ts : List Token) : Prop where
  each : ∀ t ∈ ts, t.span.start ≤ t.span.stop
  pairs : ts.Pairwise fun t u => t.span.stop ≤ u.span.start

namespace Ordered

variable {ts us : List Token}

theorem part (h : Ordered ts) (sub : us <:+: ts) : Ordered us :=
  ⟨fun t mem => h.each t (sub.subset mem), h.pairs.sublist sub.sublist⟩

theorem tail {t : Token} (h : Ordered (t :: ts)) : Ordered ts :=
  h.part (List.suffix_cons ..).isInfix

theorem left (h : Ordered (ts ++ us)) : Ordered ts := h.part (List.prefix_append ts us).isInfix

theorem right (h : Ordered (ts ++ us)) : Ordered us := h.part (List.suffix_append ts us).isInfix

theorem stop_le (h : Ordered (ts ++ us)) {t u : Token} (mem : t ∈ ts) (mem' : u ∈ us) :
    t.span.stop ≤ u.span.start :=
  (List.pairwise_append.mp h.pairs).2.2 t mem u mem'

end Ordered

/-- The span from the first of the tokens to the last. -/
def Reaches (s : Span) (seg : List Token) : Prop :=
  ∃ t u, seg.head? = some t ∧ seg.getLast? = some u ∧ s = { t.span with stop := u.span.stop }

namespace Reaches

variable {s s' : Span} {seg seg' pre post m : List Token}

theorem single (t : Token) : Reaches t.span [t] := ⟨t, t, rfl, rfl, rfl⟩

theorem cover (h : Reaches s seg) (mid : List Token) (h' : Reaches s' seg')
    (ordered : Ordered (seg ++ (mid ++ seg'))) :
    Reaches (s.cover s') (seg ++ (mid ++ seg')) := by
  obtain ⟨t, u, first, last, rfl⟩ := h
  obtain ⟨t', u', first', last', rfl⟩ := h'
  refine ⟨t, u', by rw [List.head?_append, first]; rfl, ?_, ?_⟩
  · rw [List.getLast?_append, List.getLast?_append, last']
    rfl
  · have mem : u' ∈ mid ++ seg' := List.mem_append_right _ (List.mem_of_getLast? last')
    have le := ordered.stop_le (List.mem_of_getLast? last) mem
    have le' := ordered.right.each u' mem
    simp only [Span.cover]
    rw [Nat.max_eq_left (by omega)]

/-- A segment of tokens has its span within that of the whole. -/
theorem inside (h : Reaches s (pre ++ (seg ++ post))) (h' : Reaches s' seg)
    (ordered : Ordered (pre ++ (seg ++ post))) : s.start ≤ s'.start ∧ s'.stop ≤ s.stop := by
  obtain ⟨t, u, first, last, rfl⟩ := h
  obtain ⟨t', u', first', last', rfl⟩ := h'
  constructor
  · rcases pre with _ | ⟨d, pre⟩
    · rw [List.nil_append, List.head?_append, first'] at first
      cases first
      exact le_rfl
    · cases first
      have mem : t' ∈ pre ++ (seg ++ post) :=
        List.mem_append_right _ (List.mem_append_left _ (List.mem_of_head? first'))
      have le := (List.pairwise_cons.mp ordered.pairs).1 t' mem
      have le' := ordered.each t List.mem_cons_self
      exact le'.trans le
  · rcases List.eq_nil_or_concat post with rfl | ⟨post, d, rfl⟩
    · rw [List.append_nil, List.getLast?_append, last'] at last
      cases last
      exact le_rfl
    · rw [List.concat_eq_append, ← List.append_assoc, ← List.append_assoc] at last ordered
      rw [List.getLast?_concat] at last
      cases last
      have mem : u' ∈ pre ++ seg ++ post :=
        List.mem_append_left _ (List.mem_append_right _ (List.mem_of_getLast? last'))
      have le := ordered.stop_le mem List.mem_cons_self
      have le' := ordered.right.each u List.mem_cons_self
      exact le.trans le'

/-- Of two segments the first has its span before that of the second. -/
theorem before (h : Reaches s seg) (h' : Reaches s' seg') (ordered : Ordered (seg ++ (m ++ seg'))) :
    s.stop ≤ s'.start := by
  obtain ⟨t, u, first, last, rfl⟩ := h
  obtain ⟨t', u', first', last', rfl⟩ := h'
  exact ordered.stop_le (List.mem_of_getLast? last)
    (List.mem_append_right _ (List.mem_of_head? first'))

end Reaches

/-- The parts have segments of the tokens, one behind the other. -/
inductive Spread {α : Type} (P : α → List Token → Prop) : List α → List Token → Prop
  | nil {seg} : Spread P [] seg
  | cons {p s a as seg} : P a s → Spread P as seg → Spread P (a :: as) (p ++ (s ++ seg))

namespace Spread

variable {α β : Type} {P : α → List Token → Prop} {Q : β → List Token → Prop} {as : List α} {a : α}
  {seg pre post : List Token}

theorem map {f : α → β} (h : Spread P as seg) (le : ∀ a s, P a s → Q (f a) s) :
    Spread Q (as.map f) seg := by
  induction h with
  | nil => exact .nil
  | cons first _ ih => exact .cons (le _ _ first) ih

theorem mono {Q : α → List Token → Prop} (h : Spread P as seg) (le : ∀ a s, P a s → Q a s) :
    Spread Q as seg := by
  have whole := h.map (f := id) le
  rwa [List.map_id] at whole

theorem prepend (h : Spread P as seg) (pre : List Token) : Spread P as (pre ++ seg) := by
  cases h with
  | nil => exact .nil
  | cons first others =>
    rw [← List.append_assoc]
    exact .cons first others

theorem append (h : Spread P as seg) (post : List Token) : Spread P as (seg ++ post) := by
  induction h with
  | nil => exact .nil
  | cons first _ ih =>
    simp only [List.append_assoc]
    exact .cons first ih

theorem widen (h : Spread P as seg) {whole : List Token} (sub : seg <:+: whole) :
    Spread P as whole := by
  obtain ⟨pre, post, rfl⟩ := sub
  exact (h.prepend pre).append post

theorem single (h : P a seg) : Spread P [a] seg := by
  have whole := cons (p := []) h (nil : Spread P [] [])
  rwa [List.append_nil, List.nil_append] at whole

/-- The first part at the front. -/
theorem front {s : List Token} (h : P a s) (others : Spread P as seg) :
    Spread P (a :: as) (s ++ seg) :=
  cons (p := []) h others

theorem exists_of_mem (h : Spread P as seg) (mem : a ∈ as) : ∃ s, s <:+: seg ∧ P a s := by
  induction h with
  | nil => cases mem
  | @cons pre s _ _ seg first _ ih =>
    rcases List.mem_cons.mp mem with rfl | mem
    · exact ⟨s, ⟨pre, seg, List.append_assoc ..⟩, first⟩
    · obtain ⟨s', sub, is⟩ := ih mem
      have behind := (List.suffix_append s seg).trans (List.suffix_append pre _)
      exact ⟨s', sub.trans behind.isInfix, is⟩

/-- The spans of parts lie within that of the whole, one behind the other. -/
theorem nests {spans : List Span} {whole : Span} (h : Spread Reaches spans seg)
    (reaches : Reaches whole seg) (ordered : Ordered seg) : whole.Nests spans := by
  constructor
  · intro s mem
    obtain ⟨seg', ⟨pre, post, rfl⟩, part⟩ := h.exists_of_mem mem
    rw [List.append_assoc] at reaches ordered
    exact reaches.inside part ordered
  · clear reaches
    induction h with
    | nil => exact .nil
    | @cons _ seg' s spans seg first others ih =>
      refine .cons (fun s' mem => ?_) (ih ordered.right.right)
      obtain ⟨seg'', ⟨mid, post, rfl⟩, part⟩ := others.exists_of_mem mem
      refine first.before (m := mid) part (ordered.right.part ⟨[], post, ?_⟩)
      simp only [List.nil_append, List.append_assoc]

end Spread

/-! ## Trees -/

section

variable {D room : Nat} {l : Level} {b : Binary} {t : Token} {build : Build}
  {e e' left right : Expr} {ts seg seg' rest : List Token}

theorem Binary.span_build (h : b.op? t = some build) (left right : Expr) :
    (build left right).span = left.span.cover right.span := by
  obtain ⟨op, rfl⟩ | ⟨op, rfl⟩ := Binary.build_cases h <;> rfl

theorem Binary.parts_build (h : b.op? t = some build) (left right : Expr) :
    (build left right).parts = [(.left, left), (.right, right)] := by
  obtain ⟨op, rfl⟩ | ⟨op, rfl⟩ := Binary.build_cases h <;> rfl

theorem map_snd_args (args : List Expr) :
    (args.map fun a => (Expr.Side.right, a)).map Prod.snd = args := by
  rw [List.map_map]
  exact List.map_id args

theorem span_withSpan (e : Expr) (s : Span) : (e.withSpan s).span = s := by cases e <;> rfl

theorem parts_withSpan (e : Expr) (s : Span) : (e.withSpan s).parts = e.parts := by cases e <;> rfl

/-- A sign is a node with its operand, or part of a literal itself. -/
theorem signed_cases (op : UnaryOp) (e : Expr) (s : Span) :
    (∃ v, signed op e s = .literal v s) ∨ signed op e s = .unary op e s := by
  unfold signed
  split
  · split
    · exact .inl ⟨_, rfl⟩
    · exact .inr rfl
  · exact .inl ⟨_, rfl⟩
  · exact .inr rfl

theorem span_signed (op : UnaryOp) (e : Expr) (s : Span) : (signed op e s).span = s := by
  obtain ⟨v, eq⟩ | eq := signed_cases op e s <;> rw [eq] <;> rfl

theorem signed_eq_or (op : UnaryOp) (e : Expr) (s : Span) :
    signed op e s = .unary op e s ∨ (signed op e s).parts = [] := by
  obtain ⟨v, eq⟩ | eq := signed_cases op e s
  · exact .inr (congrArg Expr.parts eq)
  · exact .inl eq

/-- The tree from these tokens alone. -/
structure At (D : Nat) (e : Expr) (seg : List Token) : Prop where
  reaches : Reaches e.span seg
  derives : ∀ rest, DerivesIn D .expr (seg ++ rest) e rest

/-- The tree from these tokens alone, and so each tree in it from some of them. -/
structure Faithful (D : Nat) (e : Expr) (seg : List Token) : Prop where
  root : At D e seg
  nodes : ∀ n ∈ e.nodes, ∃ s, s <:+: seg ∧ At D n s ∧ Spread (At D) (n.parts.map Prod.snd) s

namespace Faithful

theorem node (root : At D e seg) (parts : Spread (Faithful D) (e.parts.map Prod.snd) seg) :
    Faithful D e seg := by
  refine ⟨root, fun n mem => ?_⟩
  rcases Expr.mem_nodes_iff.mp mem with rfl | ⟨part, mem, inner⟩
  · exact ⟨seg, List.infix_rfl, root, parts.mono fun _ _ => Faithful.root⟩
  · obtain ⟨s, sub, faithful⟩ := parts.exists_of_mem (List.mem_map_of_mem mem)
    obtain ⟨s', sub', whole⟩ := faithful.nodes n inner
    exact ⟨s', sub'.trans sub, whole⟩

/-- The same parts in another tree around them. -/
theorem around (root : At D e seg) (h : Faithful D e' seg') (sub : seg' <:+: seg)
    (same : e.parts = e'.parts) : Faithful D e seg := by
  refine ⟨root, fun n mem => ?_⟩
  rcases Expr.mem_nodes_iff.mp mem with rfl | ⟨part, mem, inner⟩
  · obtain ⟨s, sub', -, parts⟩ := h.nodes e' e'.self_mem_nodes
    exact ⟨seg, List.infix_rfl, root, same ▸ parts.widen (sub'.trans sub)⟩
  · obtain ⟨s, sub', whole⟩ := h.nodes n (Expr.mem_nodes_iff.mpr (.inr ⟨part, same ▸ mem, inner⟩))
    exact ⟨s, sub'.trans sub, whole⟩

end Faithful

/-! ## Derivations -/

/-- What is behind a derivation may be anything else. -/
theorem DerivesIn.behind (h : DerivesIn room l (seg ++ rest) e rest) (rest' : List Token) :
    DerivesIn room l (seg ++ rest') e rest' := by
  obtain ⟨used, eq, all⟩ := h.framed
  rw [List.append_cancel_right eq]
  exact all rest'

/-- The tree goes on behind another, which has the tokens `before`. -/
def Onward (D room : Nat) (l : Level) (object : Expr) (ts : List Token) (e : Expr)
    (rest : List Token) : Prop :=
  ∀ before, Ordered (before ++ ts) → Faithful D object before →
    (∀ us d vs, DerivesIn room l us d vs → DerivesIn D .expr (before ++ us) d vs) →
      ∃ seg, ts = seg ++ rest ∧ Faithful D e (before ++ seg)

/-- A tree that goes on begins with the tokens `m`. -/
theorem Onward.start {m : List Token} {object : Expr} (h : Onward D room l object ts e rest)
    (ordered : Ordered (m ++ ts)) (stop : ∀ rest, DerivesIn room l rest object rest)
    (link : ∀ us d vs, DerivesIn room l us d vs → DerivesIn D .expr (m ++ us) d vs)
    (faithful : (∀ rest, DerivesIn D .expr (m ++ rest) object rest) → Faithful D object m) :
    ∃ seg, m ++ ts = seg ++ rest ∧ Faithful D e seg := by
  obtain ⟨seg, rfl, whole⟩ := h m ordered (faithful fun rest => link _ _ _ (stop rest)) link
  exact ⟨m ++ seg, (List.append_assoc ..).symm, whole⟩

/-- The tokens `m` make another of the object, which goes on. -/
theorem Onward.through {m : List Token} {room' : Nat} {l' : Level} {object object' : Expr}
    (h : Onward D room' l' object' ts e rest) (stop : ∀ rest, DerivesIn room' l' rest object' rest)
    (link : ∀ us d vs, DerivesIn room' l' us d vs → DerivesIn room l (m ++ us) d vs)
    (faithful : ∀ before, Ordered (before ++ m) → Faithful D object before →
      (∀ rest, DerivesIn D .expr (before ++ m ++ rest) object' rest) →
        Faithful D object' (before ++ m)) :
    Onward D room l object (m ++ ts) e rest := by
  intro before ordered whole onward
  rw [← List.append_assoc] at ordered
  have onward' (us d vs) (more : DerivesIn room' l' us d vs) :
      DerivesIn D .expr (before ++ m ++ us) d vs := by
    rw [List.append_assoc]
    exact onward _ _ _ (link us d vs more)
  obtain ⟨seg, rfl, whole⟩ := h (before ++ m) ordered
    (faithful before ordered.left whole fun rest => onward' _ _ _ (stop rest)) onward'
  rw [List.append_assoc] at whole
  exact ⟨m ++ seg, (List.append_assoc ..).symm, whole⟩

/-- Arguments up to the parenthesis that closes them. -/
def Listed (D : Nat) (build : List Expr → Span → Expr) (found : List Expr) (ts : List Token)
    (e : Expr) (rest : List Token) : Prop :=
  ∃ items close seg, ts = seg ++ close :: rest ∧ e = build (found ++ items) close.span ∧
    Spread (Faithful D) items seg

/-- What a derivation says about the tokens of its tree. -/
def Level.Traced (D room : Nat) (ts : List Token) (e : Expr) (rest : List Token) : Level → Prop
  | .more b left => Onward D room (.more b left) left ts e rest
  | .links object => Onward D room (.links object) object ts e rest
  | .arguments build => Listed D build [] ts e rest
  | .items build found => Listed D build found ts e rest
  | _ => ∃ seg, ts = seg ++ rest ∧ Faithful D e seg

theorem Binary.traced_operand (h : b.operand.Traced D room ts e rest) :
    ∃ seg, ts = seg ++ rest ∧ Faithful D e seg := by
  cases b <;> exact h

/-- Two trees with a token between them. -/
theorem Faithful.pair {t : Token}
    (root : ∀ rest, DerivesIn D .expr (seg ++ t :: seg' ++ rest) e rest)
    (span : e.span = left.span.cover right.span)
    (parts : e.parts = [(.left, left), (.right, right)]) (hl : Faithful D left seg)
    (hr : Faithful D right seg') (ordered : Ordered (seg ++ t :: seg')) :
    Faithful D e (seg ++ t :: seg') := by
  refine .node ⟨?_, root⟩ ?_
  · rw [span]
    exact hl.root.reaches.cover [t] hr.root.reaches ordered
  · rw [parts]
    exact .front hl ((Spread.single hr).prepend [t])

theorem DerivesIn.whole (h : DerivesIn room l ts e rest) (whole : l.Whole) (le : room ≤ D) :
    DerivesIn D .expr ts e rest :=
  (h.expr whole).mono le

theorem DerivesIn.traced (h : DerivesIn room l ts e rest) (le : room ≤ D) (ordered : Ordered ts) :
    l.Traced D room ts e rest := by
  induction h with
  | @binary room b _ left _ _ _ first more ih ih' =>
    obtain ⟨seg, rfl, faithful⟩ := Binary.traced_operand (ih le ordered)
    exact (ih' le ordered.right).start ordered (fun _ => .done)
      (fun us d vs more => (DerivesIn.binary (first.behind us) more).whole trivial le)
      fun _ => faithful
  | done | stop => exact fun before _ faithful _ => ⟨[], rfl, by rwa [List.append_nil]⟩
  | @further room b left t build _ right us _ rest op first more ih ih' =>
    obtain ⟨seg, rfl, faithful⟩ := Binary.traced_operand (ih (by omega) ordered.tail)
    exact (ih' (by omega) ordered.tail.right).through (m := t :: seg) (fun _ => .done)
      (fun us d vs more => .further op (first.behind us) more)
      fun before ordered faithful' root => .pair root (Binary.span_build op left right)
        (Binary.parts_build op left right) faithful' faithful ordered
  | single _ ih | plain _ ih | name _ ih => exact ih le ordered
  | @compared _ _ left t _ _ right _ first op second ih ih' =>
    obtain ⟨seg, rfl, faithful⟩ := ih le ordered
    have ordered' := ordered.right.tail
    obtain ⟨seg', rfl, faithful'⟩ := ih' le ordered'
    refine ⟨seg ++ t :: seg', by simp, .pair (fun rest => ?_) rfl rfl faithful faithful' ?_⟩
    · rw [List.append_assoc]
      exact (DerivesIn.expr (.compared (first.behind _) op (second.behind _)) trivial).mono le
    · rw [← List.cons_append, ← List.append_assoc] at ordered
      exact ordered.left
  | @sign room t op _ e _ is operand ih =>
    have ordered' := ordered.tail
    obtain ⟨seg, rfl, faithful⟩ := ih (by omega) ordered'
    refine ⟨t :: seg, rfl, ?_⟩
    have root : At D (signed op e (t.span.cover e.span)) (t :: seg) := by
      refine ⟨?_, fun rest => (DerivesIn.expr (.sign is (operand.behind rest)) trivial).mono le⟩
      rw [span_signed]
      exact (Reaches.single t).cover [] faithful.root.reaches
        (Ordered.left ordered)
    rcases signed_eq_or op e (t.span.cover e.span) with eq | none
    · refine .node root ?_
      rw [eq]
      exact (Spread.single faithful).prepend [t]
    · refine .node root ?_
      rw [none]
      exact .nil
  | literal is =>
    exact ⟨[_], rfl, .node ⟨.single _, fun rest => (DerivesIn.literal is).whole trivial le⟩ .nil⟩
  | @paren room op _ e cl _ opens inner closes ih =>
    obtain ⟨seg, rfl, faithful⟩ := ih (by omega) ordered.tail
    refine ⟨op :: (seg ++ [cl]), by simp, .around ⟨?_, fun rest => ?_⟩ faithful ?_ ?_⟩
    · rw [span_withSpan]
      refine (Reaches.single op).cover seg (.single cl) ?_
      exact Ordered.left (by simpa using ordered : Ordered ([op] ++ (seg ++ [cl]) ++ _))
    · have whole := DerivesIn.paren opens (inner.behind (cl :: rest)) closes
      simpa using whole.whole trivial le
    · exact ⟨[op], [cl], by simp⟩
    · rw [parts_withSpan]
  | @ident _ head _ _ _ is linked ih =>
    exact (ih le ordered.tail).start (m := [head]) ordered (fun _ => .stop)
      (fun us d vs more => (DerivesIn.ident is more).whole trivial le)
      fun root => .node ⟨.single head, root⟩ .nil
  | @call _ head _ _ us _ _ is called linked ih ih' =>
    obtain ⟨args, close, seg, rfl, rfl, spread⟩ := ih le ordered.tail
    have assoc (us : List Token) : seg ++ close :: us = (seg ++ [close]) ++ us := by simp
    rw [assoc] at called ordered ⊢
    refine (ih' le ordered.tail.right).start (m := head :: (seg ++ [close])) ordered
      (fun _ => .stop) (fun us d vs more => ?_) fun root => .node ⟨?_, root⟩ ?_
    · exact (DerivesIn.call is (called.behind us) more).whole trivial le
    · exact (Reaches.single head).cover seg (.single close) ordered.left
    · rw [Expr.parts, map_snd_args]
      exact (spread.append [close]).prepend [head]
  | @member room object dot t name _ _ _ is named _ ih =>
    refine (ih (by omega) ordered.tail.tail).through (m := [dot, t]) (fun _ => .stop)
      (fun us d vs more => .member is named more) fun before ordered faithful root => ?_
    refine .node ⟨faithful.root.reaches.cover [dot] (.single t) ordered, root⟩ ?_
    exact (Spread.single faithful).append _
  | @method _ object dot t _ _ _ us _ _ is named called _ ih ih' =>
    obtain ⟨args, close, seg, rfl, rfl, spread⟩ := ih (by omega) ordered.tail.tail
    have assoc (us : List Token) : seg ++ close :: us = (seg ++ [close]) ++ us := by simp
    rw [assoc] at called ordered ⊢
    refine (ih' (by omega) ordered.tail.tail.right).through (m := dot :: t :: (seg ++ [close]))
      (fun _ => .stop) (fun us d vs more => .method is named (called.behind us) more)
      fun before ordered faithful root => .node ⟨?_, root⟩ ?_
    · exact faithful.root.reaches.cover (dot :: t :: seg) (.single close) ordered
    · rw [Expr.parts, List.map_cons, map_snd_args]
      exact .front faithful ((spread.append [close]).prepend [dot, t])
  | @index _ object op _ key cl us _ _ opens inner closes _ ih ih' =>
    obtain ⟨seg, rfl, faithful⟩ := ih (by omega) ordered.tail
    have assoc (us : List Token) : seg ++ cl :: us = (seg ++ [cl]) ++ us := by simp
    rw [assoc] at ordered ⊢
    refine (ih' (by omega) ordered.tail.right).through (m := op :: (seg ++ [cl]))
      (fun _ => .stop) (fun us d vs more => ?_)
      fun before ordered faithful' root => .node ⟨?_, root⟩ ?_
    · have key := inner.behind (cl :: us)
      rw [assoc] at key
      exact .index opens key closes more
    · exact faithful'.root.reaches.cover (op :: seg) (.single cl) ordered
    · exact .front faithful' (((Spread.single faithful).append [cl]).prepend [op])
  | noArguments opens closes => exact ⟨[], _, [_], rfl, rfl, .nil⟩
  | @someArguments _ _ op _ _ _ opens _ ih =>
    obtain ⟨items, close, seg, rfl, rfl, spread⟩ := ih le ordered.tail
    exact ⟨items, close, op :: seg, rfl, rfl, spread.prepend [op]⟩
  | @lastItem _ _ _ _ item cl _ _ closes ih =>
    obtain ⟨seg, rfl, faithful⟩ := ih (by omega) ordered
    exact ⟨[item], cl, seg, rfl, rfl, .single faithful⟩
  | @nextItem _ _ found _ item comma _ _ _ _ is _ ih ih' =>
    obtain ⟨seg, rfl, faithful⟩ := ih (by omega) ordered
    obtain ⟨items, close, seg', rfl, rfl, spread⟩ := ih' le ordered.right.tail
    refine ⟨item :: items, close, seg ++ comma :: seg', by simp, by simp, ?_⟩
    exact .front faithful (spread.prepend [comma])

/-- Each tree in an expression has tokens of its own, from which it is derived. -/
theorem DerivesIn.faithful (h : DerivesIn room l ts e rest) (whole : l.Whole) (le : room ≤ D)
    (ordered : Ordered ts) : ∃ seg, ts = seg ++ rest ∧ Faithful D e seg := by
  have traced := h.traced le ordered
  cases l with
  | binary | compare | unary | primary | chain => exact traced
  | more | links | arguments | items => cases whole

/-! ## Statements and rules -/

/-- What has the span ends in front of a token of this kind, which is the last. -/
def EndsIn (kind : Token.Kind) (s : Span) (seg : List Token) : Prop :=
  ∃ pre t u, seg = pre ++ [t, u] ∧ t.span.stop = s.stop ∧ u.kind = kind

theorem EndsIn.of_reaches {kind : Token.Kind} {s : Span} {u : Token} (pre : List Token)
    (h : Reaches s seg) (is : u.kind = kind) : EndsIn kind s (pre ++ (seg ++ [u])) := by
  obtain ⟨t, t', -, last, rfl⟩ := h
  obtain ⟨seg, rfl⟩ := List.getLast?_eq_some_iff.mp last
  exact ⟨pre ++ seg, t', u, by simp, rfl, is⟩

/-- A statement from these tokens alone. -/
structure StatementAt (D : Nat) (s : Statement) (seg : List Token) : Prop where
  reaches : Reaches s.span seg
  exprs : Spread (Faithful D) s.exprs seg
  first : ∃ e ∈ s.exprs.head?, e.span.start = s.span.start
  last : ∃ e ∈ s.exprs.getLast?, EndsIn (.mark .semicolon) e.span seg

/-- A rule from these tokens alone. -/
structure RuleAt (D : Nat) (r : Rule) (seg : List Token) : Prop where
  reaches : Reaches r.span seg
  parts : Spread Reaches (r.condition.span :: r.actions.map Statement.span) seg
  condition : ∃ s, s <:+: seg ∧ Faithful D r.condition s
  actions : Spread (StatementAt D) r.actions seg
  first : ∃ t ∈ seg.head?, t.kind = .keyword .rule
  last : ∃ s ∈ r.actions.getLast?, EndsIn (.mark .closeBrace) s.span seg

theorem DerivesStatementIn.traced {s : Statement} (h : DerivesStatementIn room ts s rest)
    (le : room ≤ D) (ordered : Ordered ts) : ∃ seg, ts = seg ++ rest ∧ StatementAt D s seg := by
  cases h with
  | @assign room _ target eq _ value semi _ chain place assigns right ends =>
    obtain ⟨seg, rfl, faithful⟩ := chain.faithful trivial le ordered
    have le' := Nat.le_of_succ_le le
    obtain ⟨seg', rfl, faithful'⟩ := right.faithful trivial le' ordered.right.tail
    have whole : seg ++ eq :: (seg' ++ semi :: rest) = seg ++ (eq :: seg' ++ [semi]) ++ rest := by
      simp
    rw [whole] at ordered ⊢
    refine ⟨_, rfl, ?_, ?_, ⟨target, rfl, rfl⟩, ⟨value, rfl, ?_⟩⟩
    · exact faithful.root.reaches.cover _ (.single semi) ordered.left
    · have second := ((Spread.single faithful').prepend [eq]).append [semi]
      exact .front faithful second
    · have whole := EndsIn.of_reaches (seg ++ [eq]) faithful'.root.reaches ends
      simpa using whole
  | @call _ _ e semi _ chain called ends =>
    obtain ⟨seg, rfl, faithful⟩ := chain.faithful trivial le ordered
    have whole : seg ++ semi :: rest = seg ++ ([] ++ [semi]) ++ rest := by simp
    rw [whole] at ordered ⊢
    refine ⟨_, rfl, ?_, (Spread.single faithful).append _, ⟨e, rfl, rfl⟩, ⟨e, rfl, ?_⟩⟩
    · exact faithful.root.reaches.cover _ (.single semi) ordered.left
    · exact .of_reaches [] faithful.root.reaches ends

/-- Parts that follow each other have segments one behind the other, and that of the last is at the
end. -/
theorem Many.spread {α : Type} {R : List Token → α → List Token → Prop}
    {P : α → List Token → Prop} {as : List α} (h : Many R ts as rest) (ordered : Ordered ts)
    (one : ∀ {ts a rest}, R ts a rest → Ordered ts → ∃ seg, ts = seg ++ rest ∧ P a seg) :
    ∃ seg, ts = seg ++ rest ∧ Spread P as seg ∧ ∀ a ∈ as.getLast?, ∃ s, s <:+ seg ∧ P a s := by
  induction h with
  | nil => exact ⟨[], rfl, .nil, fun a mem => absurd mem (Option.not_mem_none a)⟩
  | @cons _ a _ as _ first others ih =>
    obtain ⟨seg, rfl, is⟩ := one first ordered
    obtain ⟨seg', rfl, spread, last⟩ := ih ordered.right
    refine ⟨seg ++ seg', (List.append_assoc ..).symm, .front is spread, fun b mem => ?_⟩
    cases as with
    | nil =>
      cases mem
      generalize eq : seg' ++ _ = us at others
      cases others
      rw [List.append_left_eq_self.mp eq, List.append_nil]
      exact ⟨seg, List.suffix_rfl, is⟩
    | cons a' as =>
      rw [List.getLast?_cons_cons] at mem
      obtain ⟨s, sub, is⟩ := last b mem
      exact ⟨s, sub.trans (List.suffix_append ..), is⟩

theorem DerivesRuleIn.traced {r : Rule} (h : DerivesRuleIn D ts r rest) (ordered : Ordered ts) :
    ∃ seg, ts = seg ++ rest ∧ RuleAt D r seg := by
  cases h with
  | @mk room start name _ d us n op word vs condition thn ws actions cl _ starts named described
      ranked opens introduces derived separates acts some closes =>
    obtain ⟨ds, rfl, -⟩ := described.framed
    obtain ⟨ns, rfl, -⟩ := ranked.framed
    have ordered' := ordered.tail.tail.right.right.tail.tail
    obtain ⟨cs, rfl, faithful⟩ := derived.faithful trivial (Nat.le_succ room) ordered'
    obtain ⟨as, rfl, spread, last⟩ := acts.spread ordered'.right.tail fun act ordered =>
      act.traced le_rfl ordered
    have whole : start :: name :: (ds ++ (ns ++ op :: word :: (cs ++ thn :: (as ++ cl :: rest)))) =
        start :: (name :: ds ++ ns ++ [op, word] ++ cs ++ thn :: as ++ [cl]) ++ rest := by simp
    rw [whole] at ordered ⊢
    obtain ⟨action, is⟩ := Option.ne_none_iff_exists'.mp (mt List.getLast?_eq_none_iff.mp some)
    obtain ⟨s, ⟨as', rfl⟩, final⟩ := last action is
    refine ⟨_, rfl, ?_, ?_, ⟨cs, ?_, faithful⟩, ?_, ⟨start, rfl, starts⟩, ⟨action, is, ?_⟩⟩
    · exact (Reaches.single start).cover
        (name :: ds ++ ns ++ [op, word] ++ cs ++ thn :: (as' ++ s)) (.single cl) ordered.left
    · have actions := (spread.map fun _ _ => StatementAt.reaches).prepend [thn]
      have parts := Spread.cons (p := start :: (name :: ds ++ ns ++ [op, word]))
        faithful.root.reaches (actions.append [cl])
      simpa using parts
    · exact ⟨start :: (name :: ds ++ ns ++ [op, word]), thn :: (as' ++ s) ++ [cl], by simp⟩
    · have actions := spread.prepend (start :: (name :: ds ++ ns ++ [op, word] ++ cs ++ [thn]))
      simpa using actions.append [cl]
    · have ends := EndsIn.of_reaches
        (start :: (name :: ds ++ ns ++ [op, word] ++ cs ++ thn :: as')) final.reaches closes
      simpa using ends

end

end Grammar

/-! ## Points -/

namespace Token.NoPoint

variable {t : Token} {ts : List Token}

theorem cons {kind : Kind} (is : t.kind = kind) (ne : ∀ v, kind ≠ .literal v) (h : NoPoint ts) :
    NoPoint (t :: ts) := by
  unfold NoPoint
  rw [List.isChain_cons]
  exact ⟨fun _ _ both => both.1.elim fun v literal => ne v (is.symm.trans literal), h⟩

theorem cons_of_first (ne : (Grammar.Parser.first ts).kind ≠ .mark .dot) (h : NoPoint ts) :
    NoPoint (t :: ts) := by
  unfold NoPoint
  rw [List.isChain_cons]
  refine ⟨fun u mem both => ne ?_, h⟩
  cases ts with
  | nil => cases mem
  | cons t' ts =>
    cases mem
    exact both.2

end Token.NoPoint

namespace Grammar

open Token (NoPoint)

section

variable {l : Level} {b : Binary} {left e : Expr} {ts rest : List Token}

theorem Derives.first_more_ne_dot (h : Derives (.more b left) ts e rest)
    (ne : (Parser.first rest).kind ≠ .mark .dot) : (Parser.first ts).kind ≠ .mark .dot := by
  cases h with
  | done => exact ne
  | further op =>
    obtain ⟨o, is⟩ := Binary.kind_of_op? op
    simp [is]

theorem kind_ne_literal_of_name? {t : Token} {name : String} (h : t.name? = some name)
    (v : Literal) : t.kind ≠ .literal v := by
  intro is
  simp [Token.name?, is] at h

theorem Derives.noPoint (h : Derives l ts e rest)
    (ne : l.Open → (Parser.first rest).kind ≠ .mark .dot) (behind : NoPoint rest) :
    NoPoint ts := by
  induction h with
  | @binary b _ _ _ _ _ _ more ih ih' =>
    have ne := ne trivial
    exact ih (fun _ => more.first_more_ne_dot ne) (ih' (fun _ => ne) behind)
  | done | stop => exact behind
  | further op _ more ih ih' =>
    have ne := ne trivial
    obtain ⟨o, is⟩ := Binary.kind_of_op? op
    exact .cons is (by simp) (ih (fun _ => more.first_more_ne_dot ne) (ih' (fun _ => ne) behind))
  | single _ ih | plain _ ih | name _ ih => exact ih (fun _ => ne trivial) behind
  | compared _ op _ ih ih' =>
    obtain ⟨o, is⟩ := kind_of_compareOp? op
    exact ih (fun _ => by simp [is]) (.cons is (by simp) (ih' (fun _ => ne trivial) behind))
  | sign op _ ih =>
    obtain ⟨o, is⟩ := kind_of_unaryOp? op
    exact .cons is (by simp) (ih ne behind)
  | literal => exact .cons_of_first (ne trivial) behind
  | paren opens _ closes ih =>
    exact .cons opens (by simp) (ih (fun _ => by simp [closes]) (.cons closes (by simp) behind))
  | ident is _ ih => exact .cons is (by simp) (ih (fun _ => ne trivial) behind)
  | call is _ _ ih ih' =>
    exact .cons is (by simp) (ih False.elim (ih' (fun _ => ne trivial) behind))
  | member is named _ ih =>
    exact .cons is (by simp) (.cons rfl (kind_ne_literal_of_name? named)
      (ih (fun _ => ne trivial) behind))
  | method is named _ _ ih ih' =>
    exact .cons is (by simp) (.cons rfl (kind_ne_literal_of_name? named)
      (ih False.elim (ih' (fun _ => ne trivial) behind)))
  | index opens _ closes _ ih ih' =>
    have more := NoPoint.cons closes (by simp) (ih' (fun _ => ne trivial) behind)
    exact .cons opens (by simp) (ih (fun _ => by simp [closes]) more)
  | noArguments opens closes => exact .cons opens (by simp) (.cons closes (by simp) behind)
  | someArguments opens _ ih => exact .cons opens (by simp) (ih False.elim behind)
  | lastItem _ closes ih => exact ih (fun _ => by simp [closes]) (.cons closes (by simp) behind)
  | nextItem _ is _ ih ih' =>
    exact ih (fun _ => by simp [is]) (.cons is (by simp) (ih' False.elim behind))

end

end Grammar

end Rulebook
