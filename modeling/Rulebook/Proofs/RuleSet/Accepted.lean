import Mathlib
import Rulebook.Proofs.Expr.Branch
import Rulebook.Proofs.Grammar.Attempts
import Rulebook.Proofs.RuleSet.Compiled

/-!
# Which rules pass the checks

Rules are accepted if their names are different and every call of `Retract` and `Complete` is in its
place and has the right arguments, however deep it is. Otherwise each repeated name and each
offending call is reported, under the name of its rule.
-/

namespace Rulebook

/-! ## Expressions in others -/

namespace Expr

/-- The expression stands in the other one, at any depth, or is it. -/
inductive Within (d : Expr) : Expr → Prop
  | self : Within d d
  | part {e side part} : (side, part) ∈ e.parts → Within d part → Within d e

theorem mem_nodes_iff_within {d e : Expr} : d ∈ e.nodes ↔ d.Within e := by
  rw [mem_nodes_iff]
  constructor
  · rintro (rfl | ⟨⟨side, part⟩, mem, inside⟩)
    · exact .self
    · have lt := sizeOf_part_lt mem
      exact .part mem (mem_nodes_iff_within.mp inside)
  · intro within
    cases within with
    | self => exact .inl rfl
    | part mem within =>
      have lt := sizeOf_part_lt mem
      exact .inr ⟨_, mem, mem_nodes_iff_within.mpr within⟩
termination_by sizeOf e

/-- A call that no condition may make. -/
def isBarred : Expr → Bool
  | call name _ _ => name = "Retract" || name = "Complete"
  | _ => false

/-- One argument, which names a rule if it is a literal. -/
def isTarget (names : List String) : List Expr → Bool
  | [literal (.text target) _] => target ∈ names
  | [literal ..] => false
  | [_] => true
  | _ => false

/-- A call that no action may make: the arguments are wrong. -/
def isMisused (names : List String) : Expr → Bool
  | call name args _ =>
    name = "Retract" && !isTarget names args || name = "Complete" && !args.isEmpty
  | _ => false

end Expr

/-- The arguments of a call are right, where the rules have these names. -/
structure Apt (names : List String) (name : String) (args : List Expr) : Prop where
  retract : name = "Retract" →
    ∃ arg, args = [arg] ∧ ∀ l span, arg = .literal l span → ∃ target ∈ names, l = .text target
  complete : name = "Complete" → args = []

theorem Expr.isTarget_iff {names : List String} {args : List Expr} :
    isTarget names args = true ↔
      ∃ arg, args = [arg] ∧
        ∀ l span, arg = .literal l span → ∃ target ∈ names, l = .text target := by
  constructor
  · intro target
    unfold isTarget at target
    split at target
    · next t s =>
      refine ⟨_, rfl, ?_⟩
      rintro _ _ ⟨⟩
      exact ⟨t, of_decide_eq_true target, rfl⟩
    · cases target
    · next arg _ other => exact ⟨arg, rfl, fun l s is => absurd is (other l s)⟩
    · cases target
  · rintro ⟨arg, rfl, named⟩
    cases arg with
    | literal l s =>
      obtain ⟨t, mem, rfl⟩ := named l s rfl
      exact decide_eq_true mem
    | _ => rfl

theorem Expr.isMisused_call {names : List String} {name : String} {args : List Expr} {span : Span} :
    (call name args span).isMisused names = false ↔ Apt names name args := by
  have apt : Apt names name args ↔
      (name = "Retract" → isTarget names args = true) ∧ (name = "Complete" → args = []) :=
    ⟨fun h => ⟨fun is => isTarget_iff.mpr (h.retract is), h.complete⟩,
      fun h => ⟨fun is => isTarget_iff.mp (h.1 is), h.2⟩⟩
  rw [apt]
  simp [isMisused]

namespace Rule

/-- The calls of a rule that are reported, those in its condition first. -/
def offending (names : List String) (r : Rule) : List Expr :=
  r.condition.nodes.filter Expr.isBarred ++
    (r.actions.flatMap Statement.exprs).flatMap fun e => e.nodes.filter (Expr.isMisused names)

end Rule

namespace RuleSet

/-- Different names, and no call of `Retract` or `Complete` that is out of place. -/
structure Acceptable (rules : List Rule) : Prop where
  names : (rules.map Rule.name).Nodup
  conditions : ∀ r ∈ rules, ∀ name args span,
    (Expr.call name args span).Within r.condition → name ≠ "Retract" ∧ name ≠ "Complete"
  actions : ∀ r ∈ rules, ∀ a ∈ r.actions, ∀ e ∈ a.exprs, ∀ name args span,
    (Expr.call name args span).Within e → Apt (rules.map Rule.name) name args

/-- The rules whose name occurred earlier. -/
def repeats (rules : List Rule) : List Rule :=
  (rules.zipIdx.filter fun e => e.1.name ∈ (rules.take e.2).map Rule.name).map Prod.fst

/-! ## Offences -/

/-- A name is that of a function that rules always have, or of none. -/
theorem intrinsic_or_other (name : String) :
    (∃ i : Intrinsic, name = i.name) ∨
      Intrinsic.ofName? name = none ∧ ∀ i : Intrinsic, name ≠ i.name := by
  cases found : Intrinsic.ofName? name with
  | some i => exact .inl ⟨i, Intrinsic.eq_name_of_ofName? found⟩
  | none =>
    refine .inr ⟨rfl, fun i is => ?_⟩
    rw [is, i.ofName?_name] at found
    cases found

theorem isSome_conditionFault? (e : Expr) : (conditionFault? e).isSome = e.isBarred := by
  cases e with
  | call name =>
    obtain ⟨i, rfl⟩ | ⟨unknown, other⟩ := intrinsic_or_other name
    · cases i <;> rfl
    · have retract : name ≠ "Retract" := other .retract
      have complete : name ≠ "Complete" := other .complete
      simp [conditionFault?, unknown, Expr.isBarred, retract, complete]
  | _ => rfl

theorem isSome_targetFault? (names : List String) (e : Expr) :
    (targetFault? names e).isSome = !Expr.isTarget names [e] := by
  cases e with
  | literal l =>
    cases l with
    | text target => by_cases mem : target ∈ names <;> simp [targetFault?, Expr.isTarget, mem]
    | _ => rfl
  | _ => rfl

theorem isSome_actionFault? (names : List String) (e : Expr) :
    (actionFault? names e).isSome = e.isMisused names := by
  cases e with
  | call name args =>
    obtain ⟨i, rfl⟩ | ⟨unknown, other⟩ := intrinsic_or_other name
    · match i, args with
      | .retract, [target] =>
        refine (isSome_targetFault? names target).trans ?_
        simp [Expr.isMisused, Intrinsic.name]
      | .retract, _ :: _ :: _ =>
        simp [actionFault?, Expr.isMisused, Expr.isTarget, Intrinsic.ofName?, Intrinsic.name]
      | .retract, [] | .complete, [] | .complete, _ :: _ | .log, _ => rfl
    · have retract : name ≠ "Retract" := other .retract
      have complete : name ≠ "Complete" := other .complete
      simp [actionFault?, unknown, Expr.isMisused, retract, complete]
  | _ => rfl

/-- Where an offence is, without what it is. -/
def Offence.place (o : Offence) : String × Span := (o.rule, o.span)

theorem place_offencesIn (test : Expr → Option CompileFault) (rule : String) (e : Expr) :
    (offencesIn test rule e).map Offence.place =
      (e.nodes.filter fun d => (test d).isSome).map fun d => (rule, d.span) := by
  unfold offencesIn
  induction e.nodes with
  | nil => rfl
  | cons d ds ih =>
    cases fault : test d <;> simp [fault, ih, Offence.place]

theorem place_ruleOffences (names : List String) (r : Rule) :
    (ruleOffences names r).map Offence.place =
      (r.offending names).map fun e => (r.name, e.span) := by
  unfold ruleOffences Rule.offending
  simp only [List.map_append, List.map_flatMap, place_offencesIn, isSome_conditionFault?,
    isSome_actionFault?]

/-! ## Repeated names -/

/-- The names so far are those of the rules so far. -/
theorem place_repeated (seen : List (String × Nat)) (earlier rules : List Rule)
    (same : ∀ name, name ∈ seen.map Prod.fst ↔ name ∈ earlier.map Rule.name) :
    (repeated seen rules).map Offence.place =
      ((rules.zipIdx earlier.length).filter fun e =>
        e.1.name ∈ ((earlier ++ rules).take e.2).map Rule.name).map fun e =>
          (e.1.name, e.1.span) := by
  induction rules generalizing seen earlier with
  | nil => rfl
  | cons r rules ih =>
    have split : earlier ++ r :: rules = (earlier ++ [r]) ++ rules := by simp
    have length : earlier.length + 1 = (earlier ++ [r]).length := by simp
    rw [List.zipIdx_cons, List.filter_cons, List.take_left, split, length, repeated]
    cases found : seen.lookup r.name with
    | some line =>
      have old : r.name ∈ earlier.map Rule.name := by
        by_contra new
        rw [(lookup_eq_none_iff seen r.name).mpr (mt (same r.name).mp new)] at found
        cases found
      -- The rule is one more of those so far, but its name is not noted again.
      have same' (name : String) :
          name ∈ seen.map Prod.fst ↔ name ∈ (earlier ++ [r]).map Rule.name := by
        rw [same, List.map_append, List.mem_append]
        refine ⟨.inl, ?_⟩
        rintro (mem | mem)
        · exact mem
        · rwa [List.mem_singleton.mp mem]
      rw [if_pos (decide_eq_true old), List.map_cons, List.map_cons, ih seen _ same']
      rfl
    | none =>
      have new : r.name ∉ earlier.map Rule.name :=
        mt (same r.name).mpr ((lookup_eq_none_iff seen r.name).mp found)
      rw [if_neg (by simpa using new)]
      refine ih _ _ fun name => ?_
      simp [same, or_comm]

theorem place_repeats (rules : List Rule) :
    (repeated [] rules).map Offence.place = (repeats rules).map fun r => (r.name, r.span) := by
  rw [place_repeated [] [] rules fun _ => Iff.rfl, repeats, List.map_map]
  rfl

/-- The places of all offences: repeated names first, then rule by rule. -/
theorem place_offences (rules : List Rule) :
    (offences rules).map Offence.place =
      ((repeats rules).map fun r => (r.name, r.span)) ++
        rules.flatMap fun r =>
          (r.offending (rules.map Rule.name)).map fun e => (r.name, e.span) := by
  unfold offences
  simp only [List.map_append, List.map_flatMap, place_repeats, place_ruleOffences]

/-! ## Acceptance -/

/-- A test that only calls by a bare name can fail finds none of them at any depth. -/
theorem filter_nodes_eq_nil_iff {test : Expr → Bool} (e : Expr)
    (calls : ∀ d, test d = true → ∃ name args span, d = .call name args span) :
    e.nodes.filter test = [] ↔ ∀ name args span, (Expr.call name args span).Within e →
      test (.call name args span) = false := by
  rw [List.filter_eq_nil_iff]
  constructor
  · intro none name args span within
    exact Bool.eq_false_iff.mpr (none _ (Expr.mem_nodes_iff_within.mpr within))
  · intro none d mem found
    obtain ⟨name, args, span, rfl⟩ := calls d found
    rw [none name args span (Expr.mem_nodes_iff_within.mp mem)] at found
    cases found

theorem call_of_isBarred (d : Expr) (barred : d.isBarred = true) :
    ∃ name args span, d = .call name args span := by
  cases d with
  | call name args span => exact ⟨name, args, span, rfl⟩
  | _ => cases barred

theorem call_of_isMisused (names : List String) (d : Expr) (misused : d.isMisused names = true) :
    ∃ name args span, d = .call name args span := by
  cases d with
  | call name args span => exact ⟨name, args, span, rfl⟩
  | _ => cases misused

theorem offending_eq_nil_iff (names : List String) (r : Rule) :
    r.offending names = [] ↔
      (∀ name args span, (Expr.call name args span).Within r.condition →
          name ≠ "Retract" ∧ name ≠ "Complete") ∧
        ∀ a ∈ r.actions, ∀ e ∈ a.exprs, ∀ name args span,
          (Expr.call name args span).Within e → Apt names name args := by
  unfold Rule.offending
  rw [List.append_eq_nil_iff, filter_nodes_eq_nil_iff _ call_of_isBarred,
    List.flatMap_eq_nil_iff]
  refine and_congr (by simp [Expr.isBarred]) ?_
  simp only [filter_nodes_eq_nil_iff _ (call_of_isMisused names), Expr.isMisused_call,
    List.mem_flatMap]
  constructor
  · intro all a ha e he
    exact all e ⟨a, ha, he⟩
  · rintro all e ⟨a, ha, he⟩
    exact all a ha e he

theorem repeats_eq_nil_iff (rules : List Rule) :
    repeats rules = [] ↔ (rules.map Rule.name).Nodup := by
  have places := congrArg (· = []) (place_repeats rules)
  simp only [List.map_eq_nil_iff, repeated_eq_nil_iff, List.map_nil, List.not_mem_nil,
    not_false_eq_true, implies_true, and_true] at places
  exact iff_of_eq places.symm

theorem check_eq_ok_iff_acceptable (source : String) (rules : List Rule) :
    check source rules = .ok () ↔ Acceptable rules := by
  have places := congrArg (· = []) (place_offences rules)
  simp only [List.map_eq_nil_iff, List.append_eq_nil_iff, List.flatMap_eq_nil_iff,
    repeats_eq_nil_iff, offending_eq_nil_iff] at places
  rw [check_eq_ok_iff, iff_of_eq places]
  constructor
  · rintro ⟨names, all⟩
    exact ⟨names, fun r mem => (all r mem).1, fun r mem => (all r mem).2⟩
  · intro ⟨names, conditions, actions⟩
    exact ⟨names, fun r mem => ⟨conditions r mem, actions r mem⟩⟩

end RuleSet

/-! ## Methods -/

namespace Expr

variable (f : String → String)

mutual

/-- Other names for the methods; those of bare calls stay. -/
def renamed : Expr → Expr
  | literal v s => literal v s
  | ident name s => ident name s
  | unary op operand s => unary op operand.renamed s
  | arith op l r s => arith op l.renamed r.renamed s
  | compare op l r s => compare op l.renamed r.renamed s
  | logic op l r s => logic op l.renamed r.renamed s
  | member object name s => member object.renamed name s
  | index object key s => index object.renamed key.renamed s
  | call name args s => call name (renamedAll args) s
  | method receiver name args s => method receiver.renamed (f name) (renamedAll args) s

def renamedAll : List Expr → List Expr
  | [] => []
  | e :: es => e.renamed :: renamedAll es

end

variable {f}

theorem span_renamed (e : Expr) : (e.renamed f).span = e.span := by cases e <;> rfl

mutual

theorem nodes_renamed : ∀ e : Expr, (e.renamed f).nodes = e.nodes.map (renamed f)
  | literal .. | ident .. => rfl
  | unary _ operand _ | member operand _ _ => by
    rw [renamed, nodes, nodes, nodes_renamed operand, List.map_cons, renamed]
  | arith _ l r _ | compare _ l r _ | logic _ l r _ | index l r _ => by
    rw [renamed, nodes, nodes, nodes_renamed l, nodes_renamed r, List.map_cons, List.map_append,
      renamed]
  | call _ args _ => by
    rw [renamed, nodes, nodes, nodesOfAll_renamedAll args, List.map_cons, renamed]
  | method receiver _ args _ => by
    rw [renamed, nodes, nodes, nodes_renamed receiver, nodesOfAll_renamedAll args, List.map_cons,
      List.map_append, renamed]

theorem nodesOfAll_renamedAll : ∀ es : List Expr,
    nodesOfAll (renamedAll f es) = (nodesOfAll es).map (renamed f)
  | [] => rfl
  | e :: es => by
    rw [renamedAll, nodesOfAll, nodesOfAll, nodes_renamed e, nodesOfAll_renamedAll es,
      List.map_append]

end

end Expr

namespace Statement

def renamed (f : String → String) : Statement → Statement
  | assign target value s => assign (target.renamed f) (value.renamed f) s
  | call e s => call (e.renamed f) s

theorem exprs_renamed (f : String → String) (a : Statement) :
    (a.renamed f).exprs = a.exprs.map (Expr.renamed f) := by
  cases a <;> rfl

end Statement

def Rule.renamed (f : String → String) (r : Rule) : Rule :=
  { r with condition := r.condition.renamed f, actions := r.actions.map (Statement.renamed f) }

namespace RuleSet

variable {f : String → String}

theorem conditionFault?_renamed (e : Expr) : conditionFault? (e.renamed f) = conditionFault? e := by
  cases e <;> rfl

theorem targetFault?_renamed (names : List String) (e : Expr) :
    targetFault? names (e.renamed f) = targetFault? names e := by
  cases e <;> rfl

theorem length_renamedAll (es : List Expr) : (Expr.renamedAll f es).length = es.length := by
  induction es with
  | nil => rfl
  | cons e es ih => rw [Expr.renamedAll, List.length_cons, ih, List.length_cons]

theorem actionFault?_renamed (names : List String) (e : Expr) :
    actionFault? names (e.renamed f) = actionFault? names e := by
  cases e with
  | call name args =>
    unfold Expr.renamed actionFault?
    dsimp only
    rcases Intrinsic.ofName? name with _ | i
    · rfl
    match i, args with
    | .retract, [target] => exact targetFault?_renamed names target
    | .retract, _ :: _ :: rest =>
      have same := length_renamedAll (f := f) rest
      exact congrArg (fun n => some (CompileFault.argumentCount name 1 (n + 2))) same
    | .complete, _ :: rest =>
      have same := length_renamedAll (f := f) rest
      exact congrArg (fun n => some (CompileFault.argumentCount name 0 (n + 1))) same
    | .retract, [] | .complete, [] | .log, _ => rfl
  | _ => rfl

theorem offencesIn_renamed {test : Expr → Option CompileFault}
    (alike : ∀ e, test (e.renamed f) = test e) (rule : String) (e : Expr) :
    offencesIn test rule (e.renamed f) = offencesIn test rule e := by
  unfold offencesIn
  rw [Expr.nodes_renamed, List.filterMap_map]
  simp only [Function.comp_def, alike, Expr.span_renamed]

theorem ruleOffences_renamed (names : List String) (r : Rule) :
    ruleOffences names (r.renamed f) = ruleOffences names r := by
  unfold ruleOffences Rule.renamed
  dsimp only
  rw [offencesIn_renamed conditionFault?_renamed, List.flatMap_map]
  simp only [Statement.exprs_renamed, ← List.map_flatMap, List.flatMap_map,
    offencesIn_renamed (actionFault?_renamed names)]

theorem repeated_renamed (seen : List (String × Nat)) (rules : List Rule) :
    repeated seen (rules.map (Rule.renamed f)) = repeated seen rules := by
  induction rules generalizing seen with
  | nil => rfl
  | cons r rules ih =>
    simp only [List.map_cons, repeated, ih]
    rfl

/-- What methods are called does not matter to the checks. -/
theorem check_renamed (source : String) (rules : List Rule) :
    check source (rules.map (Rule.renamed f)) = check source rules := by
  have names : (rules.map (Rule.renamed f)).map Rule.name = rules.map Rule.name :=
    List.map_map
  unfold check offences
  rw [repeated_renamed, names, List.flatMap_map]
  simp only [ruleOffences_renamed]

theorem reported_check (source : String) (rules : List Rule) :
    reported (check source rules) = (offences rules).map (Offence.problem source) := by
  unfold check
  exact reported_ofProblems

/-- The rules that pass are the acceptable ones. Of others all offences are reported: the rules
whose name occurred earlier, and then rule by rule the calls that are out of place, each under the
name of its rule. Methods are not checked, whatever they are called. -/
theorem check_decides_acceptable (source : String) (rules : List Rule) :
    (check source rules = .ok () ↔ Acceptable rules) ∧
      ((reported (check source rules)).map fun p => (p.cause.stage, p.source, p.rule, p.span)) =
        (((repeats rules).map fun r => (r.name, r.span)) ++
          rules.flatMap fun r =>
            (r.offending (rules.map Rule.name)).map fun e => (r.name, e.span)).map
          (fun place => (.compile, source, some place.1, place.2)) ∧
      (reported (check source rules)).length =
        (repeats rules).length +
          (rules.map fun r => (r.offending (rules.map Rule.name)).length).sum ∧
      ∀ f : String → String, check source (rules.map (Rule.renamed f)) = check source rules := by
  have places := place_offences rules
  rw [reported_check]
  refine ⟨check_eq_ok_iff_acceptable source rules, ?_, ?_, fun f => check_renamed source rules⟩
  · rw [← places, List.map_map, List.map_map]
    rfl
  · have counts := congrArg List.length places
    simp only [List.length_map, List.length_append, List.length_flatMap] at counts
    rw [List.length_map, counts]

end RuleSet

end Rulebook
