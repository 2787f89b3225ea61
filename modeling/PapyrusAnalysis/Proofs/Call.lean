import Mathlib.Data.List.Forall2
import Mathlib.Data.List.Nodup
import PapyrusAnalysis.Call

/-!
# Arguments and what becomes of them

Every argument of a call has one fate, unless there are more arguments than parameters: it goes to a
parameter, or there is something wrong with its name. The arguments behind those of the required
parameters are no more than the optional parameters, so that one of these is always left for an
argument without a name.

Where nothing is wrong, required parameters get the first arguments in order, whatever names these
have, and optional ones get the others by name or in order. The order does not leave out the
parameters that are given by name, so that one of these can get a second argument. So it is
a matter of the names in the first places and of that overlap whether a call is legal.

## Main definitions

* `Call.Fate`: what can become of an argument.
* `Call.Matched`: how parameters are bound to arguments if nothing is wrong.
* `Call.Legal`: parameters that are bound to arguments as they should be.

## Main statements

* `Call.pair_fates`: each argument has one fate.
* `Call.Matched.legal_iff`: the calls that are legal among those in which nothing is wrong.
-/

namespace PapyrusAnalysis.Call

variable {parameters queue : List Parameter} {used : List String} {arguments : List Argument}
  {name : String}

/-- The parameters that must have an argument. -/
def required (parameters : List Parameter) : List Parameter := parameters.filter (!·.isOptional)

/-- The parameters that need no argument. -/
def optional (parameters : List Parameter) : List Parameter := parameters.filter (·.isOptional)

theorem length_required_add_optional (parameters : List Parameter) :
    (required parameters).length + (optional parameters).length = parameters.length := by
  have split := List.length_eq_length_filter_add (l := parameters) (·.isOptional)
  unfold required optional
  omega

theorem pair_eq (parameters : List Parameter) (arguments : List Argument) :
    pair parameters arguments = pairRequired (required parameters) arguments ++
      pairOptional (optional parameters) (optional parameters) []
        (arguments.drop (required parameters).length) := by
  rw [pair, List.partition_eq_filter_filter]
  rfl

theorem pairRequired_eq (parameters : List Parameter) (arguments : List Argument) :
    pairRequired parameters arguments = List.zipWith .passed arguments parameters ++
      List.replicate (parameters.length - arguments.length) .missing := by
  induction parameters generalizing arguments with
  | nil => simp [pairRequired]
  | cons parameter parameters ih =>
    cases arguments with
    | nil => simp [pairRequired, ih, List.replicate_succ]
    | cons argument arguments => simp [pairRequired, ih]

theorem parameterNamed_eq_some {parameter : Parameter}
    (h : parameterNamed parameters name = some parameter) :
    parameter ∈ parameters ∧ parameter.name = Text.lowercase name := by
  have member := List.mem_of_find?_eq_some h
  have same := List.find?_some h
  exact ⟨List.mem_reverse.mp member, of_decide_eq_true same⟩

theorem parameterNamed_eq_none (h : parameterNamed parameters name = none) :
    ∀ parameter ∈ parameters, parameter.name ≠ Text.lowercase name := by
  intro parameter member
  have other := List.find?_eq_none.mp h parameter (List.mem_reverse.mpr member)
  simpa using other

/-! ## Fates -/

/-- What can become of an argument: it goes to one of some parameters, or its name is that of no
optional one, or it is that of one and cannot be used again. -/
inductive Fate (parameters : List Parameter) (argument : Argument) : Pairing → Prop where
  | passed {parameter : Parameter} (offered : parameter ∈ parameters) :
      Fate parameters argument (.passed argument parameter)
  | unknownName {name : String} (named : argument.name = some name)
      (unknown : ∀ parameter ∈ optional parameters, parameter.name ≠ Text.lowercase name) :
      Fate parameters argument (.unknownName argument name)
  | reusedName {name : String} {parameter : Parameter} (named : argument.name = some name)
      (offered : parameter ∈ optional parameters) (same : parameter.name = Text.lowercase name) :
      Fate parameters argument (.reusedName argument)

/-- While as many optional parameters are left as there are arguments, none of these is dropped. -/
theorem pairOptional_fates (left : queue ⊆ parameters) (few : arguments.length ≤ queue.length) :
    List.Forall₂ (Fate parameters) arguments
      (pairOptional (optional parameters) queue used arguments) := by
  induction arguments generalizing queue used with
  | nil => cases queue <;> exact .nil
  | cons argument arguments ih =>
    have fewer : arguments.length ≤ queue.length := Nat.le_of_succ_le few
    unfold pairOptional
    split
    case h_1 => cases few
    case h_2 parameter queue unnamed =>
      have shorter : arguments.length ≤ queue.length := Nat.le_of_succ_le_succ few
      exact .cons (.passed (left List.mem_cons_self))
        (ih (fun x hx => left (List.mem_cons_of_mem _ hx)) shorter)
    case h_3 name named =>
      split
      case h_1 unknown =>
        exact .cons (.unknownName named (parameterNamed_eq_none unknown)) (ih left fewer)
      case h_2 parameter known =>
        obtain ⟨offered, same⟩ := parameterNamed_eq_some known
        split
        · exact .cons (.reusedName named offered same) (ih left fewer)
        · exact .cons (.passed (List.mem_of_mem_filter offered)) (ih left fewer)

theorem zipWith_fates {members : List Parameter} (offered : members ⊆ parameters) :
    List.Forall₂ (Fate parameters) (arguments.take members.length)
      (List.zipWith .passed arguments members) := by
  induction members generalizing arguments with
  | nil => simp
  | cons parameter members ih =>
    cases arguments with
    | nil => simp
    | cons argument arguments =>
      have others : members ⊆ parameters := fun x hx => offered (List.mem_cons_of_mem _ hx)
      exact .cons (.passed (offered List.mem_cons_self)) (ih others)

/-- Every argument has one fate, and only required parameters can be left without an argument. -/
theorem pair_fates (few : arguments.length ≤ parameters.length) :
    ∃ fates, List.Forall₂ (Fate parameters) arguments fates ∧ pair parameters arguments =
      fates ++ List.replicate ((required parameters).length - arguments.length) .missing := by
  have total := length_required_add_optional parameters
  have first : List.Forall₂ (Fate parameters) (arguments.take (required parameters).length)
      (List.zipWith .passed arguments (required parameters)) :=
    zipWith_fates (List.filter_subset_self _)
  have others : List.Forall₂ (Fate parameters) (arguments.drop (required parameters).length)
      (pairOptional (optional parameters) (optional parameters) []
        (arguments.drop (required parameters).length)) :=
    pairOptional_fates (List.filter_subset_self _) (by rw [List.length_drop]; omega)
  refine ⟨_, by simpa only [List.take_append_drop] using List.rel_append first others, ?_⟩
  rw [pair_eq, pairRequired_eq]
  -- Where an argument is missing, none is left for optional parameters.
  rcases Nat.lt_or_ge arguments.length (required parameters).length with lack | enough
  · have none : arguments.drop (required parameters).length = [] :=
      List.drop_eq_nil_of_le (Nat.le_of_lt lack)
    simp [none, pairOptional]
  · simp [Nat.sub_eq_zero_of_le enough]

/-! ## Calls in which nothing is wrong -/

/-- How parameters are bound to arguments if nothing is wrong. Required parameters take the first
arguments in order, whatever names these have. Of the arguments behind them, those with a name go to
the optional parameters of these names, and those without a name go to the optional parameters in
order. Two arguments go to the same parameter only if it is given by name and reached in order later
on. -/
structure Matched (parameters : List Parameter) (arguments : List Argument)
    (bound : List (Argument × Parameter)) : Prop where
  /-- Every argument goes to one parameter. -/
  all : bound.map (·.1) = arguments
  offered : ∀ b ∈ bound, b.2 ∈ parameters
  inOrder : (bound.take (required parameters).length).map (·.2) = required parameters
  once : ∀ parameter ∈ required parameters, (bound.map (·.2)).count parameter = 1
  named : ∀ b ∈ bound.drop (required parameters).length, ∀ name, b.1.name = some name →
    b.2 ∈ optional parameters ∧ b.2.name = Text.lowercase name
  shifted : ((bound.drop (required parameters).length).filter (·.1.name.isNone)).map (·.2) <+:
    optional parameters
  shared : bound.Pairwise fun b b' => b.2 = b'.2 → b.1.name.isSome ∧ b'.1.name = none

/-- The argument and the parameter of a pairing that has both. -/
def bound? : Pairing → Option (Argument × Parameter)
  | .passed argument parameter => some (argument, parameter)
  | _ => none

/-- An argument goes to a parameter by its name if that is not used, and else to one of those that
are left. -/
structure Drawn (members queue : List Parameter) (used : List String) (b : Argument × Parameter) :
    Prop where
  named : ∀ name, b.1.name = some name →
    b.2 ∈ members ∧ b.2.name = Text.lowercase name ∧ b.2.name ∉ used
  unnamed : b.1.name = none → b.2 ∈ queue

theorem Drawn.weaken {members queue queue' : List Parameter} {used used' : List String}
    {b : Argument × Parameter} (h : Drawn members queue used b) (queues : queue ⊆ queue')
    (uses : used' ⊆ used) : Drawn members queue' used' b where
  named name hname := by
    obtain ⟨offered, same, unused⟩ := h.named name hname
    exact ⟨offered, same, fun hm => unused (uses hm)⟩
  unnamed hname := queues (h.unnamed hname)

theorem Drawn.offered {members : List Parameter} {b : Argument × Parameter}
    (h : Drawn members members used b) : b.2 ∈ members := by
  cases hname : b.1.name with
  | none => exact h.unnamed hname
  | some name => exact (h.named name hname).1

/-- Optional parameters are drawn from their names and from the ones that are left, and each way
leads to a parameter once. -/
theorem pairOptional_drawn {members : List Parameter} (distinct : queue.Nodup) :
    (∀ b ∈ (pairOptional members queue used arguments).filterMap bound?,
        Drawn members queue used b) ∧
      ((pairOptional members queue used arguments).filterMap bound?).Pairwise
        fun b b' => b.2 = b'.2 → b.1.name.isSome ∧ b'.1.name = none := by
  induction arguments generalizing queue used with
  | nil => cases queue <;> simp [pairOptional]
  | cons argument arguments ih =>
    unfold pairOptional
    split
    case h_1 => exact ih distinct
    case h_2 parameter queue unnamed =>
      obtain ⟨fresh, distinct⟩ := List.nodup_cons.mp distinct
      obtain ⟨drawn, apart⟩ := @ih queue (parameter.name :: used) distinct
      simp only [List.filterMap_cons, bound?, List.mem_cons, forall_eq_or_imp, List.pairwise_cons]
      refine ⟨⟨⟨by simp [unnamed], by simp⟩, fun b hb =>
        (drawn b hb).weaken (List.subset_cons_self _ _) (List.subset_cons_self _ _)⟩, ?_, apart⟩
      -- What comes later can neither be named like this parameter nor be this one.
      rintro b hb rfl
      cases hname : b.1.name with
      | none => exact absurd ((drawn b hb).unnamed hname) fresh
      | some name => simpa using ((drawn b hb).named name hname).2.2
    case h_3 name named =>
      split
      case h_1 => exact ih distinct
      case h_2 parameter known =>
        obtain ⟨offered, same⟩ := parameterNamed_eq_some known
        split
        case isTrue => exact ih distinct
        case isFalse unused =>
          obtain ⟨drawn, apart⟩ := @ih _ (parameter.name :: used) distinct
          simp only [List.filterMap_cons, bound?, List.mem_cons, forall_eq_or_imp,
            List.pairwise_cons]
          refine ⟨⟨⟨?_, by simp [named]⟩, fun b hb =>
            (drawn b hb).weaken (List.Subset.refl _) (List.subset_cons_self _ _)⟩, ?_, apart⟩
          · simp_all
          · rintro b hb rfl
            cases hname : b.1.name with
            | none => simp [named]
            | some name => simpa using ((drawn b hb).named name hname).2.2

theorem filterMap_zipWith (members : List Parameter) :
    (List.zipWith Pairing.passed arguments members).filterMap bound? = arguments.zip members := by
  induction members generalizing arguments with
  | nil => simp
  | cons parameter members ih => cases arguments <;> simp [bound?, ih]

/-- Fates that are all fortunate bind every argument. -/
theorem map_bound_of_fates {fates : List Pairing}
    (h : List.Forall₂ (Fate parameters) arguments fates) (bound : ∀ f ∈ fates, (bound? f).isSome) :
    (fates.filterMap bound?).map (·.1) = arguments := by
  induction h with
  | nil => rfl
  | cons fate _ ih =>
    cases fate with
    | passed => simpa [bound?] using ih fun f hf => bound f (List.mem_cons_of_mem _ hf)
    | unknownName | reusedName => simp [bound?] at bound

/-- Arguments without a name go to the parameters that are left, one after another. -/
theorem pairOptional_shifted {members : List Parameter} :
    (((pairOptional members queue used arguments).filterMap bound?).filter
      (·.1.name.isNone)).map (·.2) <+: queue := by
  induction arguments generalizing queue used with
  | nil => cases queue <;> simp [pairOptional]
  | cons argument arguments ih =>
    unfold pairOptional
    split
    case h_1 => exact ih
    case h_2 parameter queue unnamed =>
      simpa [bound?, unnamed, List.prefix_cons_inj] using @ih queue (parameter.name :: used)
    case h_3 name named =>
      split
      case h_1 => exact ih
      case h_2 parameter known =>
        split
        case isTrue => exact ih
        case isFalse => simpa [bound?, named] using @ih _ (parameter.name :: used)

/-- Nothing is wrong if the first arguments go to the required parameters and the others are drawn
for optional ones. -/
theorem matched_of_drawn (distinct : (parameters.map (·.name)).Nodup)
    (enough : (required parameters).length ≤ arguments.length)
    {others : List (Argument × Parameter)}
    (all : (arguments.zip (required parameters) ++ others).map (·.1) = arguments)
    (drawn : ∀ b ∈ others, Drawn (optional parameters) (optional parameters) used b)
    (shifted : (others.filter (·.1.name.isNone)).map (·.2) <+: optional parameters)
    (shared : others.Pairwise fun b b' => b.2 = b'.2 → b.1.name.isSome ∧ b'.1.name = none) :
    Matched parameters arguments (arguments.zip (required parameters) ++ others) := by
  have apart : (required parameters).Nodup := distinct.of_map.filter _
  have length : (arguments.zip (required parameters)).length = (required parameters).length := by
    rw [List.length_zip, Nat.min_eq_right enough]
  have first : (arguments.zip (required parameters)).map (·.2) = required parameters :=
    List.map_snd_zip enough
  have members : ∀ b ∈ arguments.zip (required parameters), b.2 ∈ required parameters :=
    fun b hb => (List.of_mem_zip hb).2
  have kinds : ∀ b ∈ others, b.2 ∉ required parameters := by
    intro b hb
    have := (drawn b hb).offered
    simp_all [required, optional]
  refine ⟨all, ?_, ?_, ?_, ?_, ?_, ?_⟩
  · intro b hb
    rcases List.mem_append.mp hb with hb | hb
    · exact List.mem_of_mem_filter (members b hb)
    · exact List.mem_of_mem_filter (drawn b hb).offered
  · rw [List.take_left' length, first]
  · intro parameter hp
    have other : parameter ∉ others.map (·.2) := by
      rintro hm
      obtain ⟨b, hb, rfl⟩ := List.mem_map.mp hm
      exact kinds b hb hp
    rw [List.map_append, first, List.count_append, List.count_eq_zero_of_not_mem other,
      List.count_eq_one_of_mem apart hp]
  · rw [List.drop_left' length]
    intro b hb name hname
    obtain ⟨offered, same, -⟩ := (drawn b hb).named name hname
    exact ⟨offered, same⟩
  · rwa [List.drop_left' length]
  · refine List.pairwise_append.mpr ⟨?_, shared, ?_⟩
    · have differ : ((arguments.zip (required parameters)).map (·.2)).Nodup := by rwa [first]
      exact (List.pairwise_map.mp differ).imp fun ne same => absurd same ne
    · intro b hb b' hb' same
      exact absurd (same ▸ members b hb) (kinds b' hb')

/-- Nothing is wrong with a call in which every pairing is one of an argument with a parameter. -/
theorem pair_matched (distinct : (parameters.map (·.name)).Nodup)
    (few : arguments.length ≤ parameters.length)
    (bound : ∀ pairing ∈ pair parameters arguments, (bound? pairing).isSome) :
    Matched parameters arguments ((pair parameters arguments).filterMap bound?) := by
  obtain ⟨fates, hfates, hpair⟩ := pair_fates few
  have enough : (required parameters).length ≤ arguments.length := by
    by_contra lack
    have missing : .missing ∈ pair parameters arguments := by
      rw [hpair]
      exact List.mem_append_right _ (List.mem_replicate.mpr ⟨by omega, rfl⟩)
    simpa [bound?] using bound _ missing
  rw [Nat.sub_eq_zero_of_le enough, List.replicate_zero, List.append_nil] at hpair
  have all : ((pair parameters arguments).filterMap bound?).map (·.1) = arguments := by
    rw [hpair] at bound ⊢
    exact map_bound_of_fates hfates bound
  rw [pair_eq, pairRequired_eq, Nat.sub_eq_zero_of_le enough, List.replicate_zero, List.append_nil,
    List.filterMap_append, filterMap_zipWith] at all ⊢
  obtain ⟨drawn, shared⟩ := pairOptional_drawn (distinct.of_map.filter _)
  exact matched_of_drawn distinct enough all drawn pairOptional_shifted shared

/-! ## Legal calls -/

/-- Parameters bound to arguments as they should be: required ones once and none twice, and
arguments that have a name to the parameters of that name. -/
structure Legal (parameters : List Parameter) (bound : List (Argument × Parameter)) : Prop where
  once : ∀ parameter ∈ required parameters, (bound.map (·.2)).count parameter = 1
  single : (bound.map (·.2)).Nodup
  named : ∀ b ∈ bound, ∀ name, b.1.name = some name → b.2.name = Text.lowercase name

/-- An argument in the place of a required parameter has another name than that one. -/
def Misnames (parameters : List Parameter) (arguments : List Argument) : Prop :=
  ∃ b ∈ arguments.zip (required parameters), ∃ name, b.1.name = some name ∧
    b.2.name ≠ Text.lowercase name

/-- An argument without a name comes in order to the optional parameter that an earlier one has by
name. -/
def Overlaps (parameters : List Parameter) (arguments : List Argument) : Prop :=
  ∃ before argument after,
    arguments.drop (required parameters).length = before ++ argument :: after ∧
    argument.name = none ∧ ∃ earlier ∈ before, ∃ name, earlier.name = some name ∧
      (optional parameters)[before.countP (·.name.isNone)]?.map (·.name) =
        some (Text.lowercase name)

section

variable {bound : List (Argument × Parameter)}

theorem Matched.take_eq (h : Matched parameters arguments bound) :
    bound.take (required parameters).length = arguments.zip (required parameters) := by
  have first : (bound.take (required parameters).length).map (·.1) =
      arguments.take (required parameters).length := by rw [List.map_take, h.all]
  calc bound.take (required parameters).length
      = (arguments.take (required parameters).length).zip (required parameters) :=
        List.zip_of_prod first h.inOrder
    _ = (arguments.zip (required parameters)).take (required parameters).length := by
        rw [List.zip_eq_zipWith, List.zip_eq_zipWith, List.take_zipWith, List.take_length]
    _ = arguments.zip (required parameters) :=
        List.take_of_length_le (by rw [List.length_zip]; omega)

/-- An argument without a name goes to the optional parameter whose number is that of the arguments
without a name before it. -/
theorem Matched.reached (h : Matched parameters arguments bound)
    {before after : List (Argument × Parameter)} {b : Argument × Parameter}
    (split : bound.drop (required parameters).length = before ++ b :: after)
    (unnamed : b.1.name = none) :
    (optional parameters)[(before.map (·.1)).countP (·.name.isNone)]? = some b.2 := by
  obtain ⟨left, hleft⟩ := h.shifted
  have number : (before.map (·.1)).countP (·.name.isNone) =
      ((before.filter (·.1.name.isNone)).map (·.2)).length := by
    rw [List.countP_map, List.countP_eq_length_filter, List.length_map]
    rfl
  rw [← hleft, split, number]
  simp [List.filter_append, unnamed]

theorem Matched.mem_optional (h : Matched parameters arguments bound) {b : Argument × Parameter}
    (hb : b ∈ bound.drop (required parameters).length) : b.2 ∈ optional parameters := by
  cases hname : b.1.name with
  | some name => exact (h.named b hb name hname).1
  | none =>
    refine h.shifted.subset (List.mem_map_of_mem (List.mem_filter.mpr ⟨hb, ?_⟩))
    simp [hname]

theorem Matched.not_overlaps (distinct : (parameters.map (·.name)).Nodup)
    (h : Matched parameters arguments bound) (single : (bound.map (·.2)).Nodup) :
    ¬ Overlaps parameters arguments := by
  rintro ⟨_, _, _, split, unnamed, _, hearlier, name, hname, reached⟩
  have others : (bound.drop (required parameters).length).map (·.1) = _ :=
    (List.map_drop ..).trans ((congrArg _ h.all).trans split)
  obtain ⟨before, rest, hbound, rfl, hrest⟩ := List.map_eq_append_iff.mp others
  obtain ⟨b, after, rfl, rfl, rfl⟩ := List.map_eq_cons_iff.mp hrest
  obtain ⟨b', hb', rfl⟩ := List.mem_map.mp hearlier
  have behind {x : Argument × Parameter} (hx : x ∈ before ++ b :: after) :
      x ∈ bound.drop (required parameters).length := hbound ▸ hx
  have hb : b.2.name = Text.lowercase name := by
    rw [h.reached hbound unnamed] at reached
    exact Option.some.inj reached
  obtain ⟨-, named⟩ := h.named b' (behind (by simp [hb'])) name hname
  have same : b'.2 = b.2 :=
    List.inj_on_of_nodup_map distinct (h.offered b' (List.mem_of_mem_drop (behind (by simp [hb']))))
      (h.offered b (List.mem_of_mem_drop (behind (by simp)))) (named.trans hb.symm)
  have apart : ((before ++ b :: after).map (·.2)).Nodup := by
    rw [← hbound, List.map_drop]
    exact single.sublist (List.drop_sublist ..)
  rw [List.map_append, List.nodup_append] at apart
  exact apart.2.2 b'.2 (List.mem_map_of_mem hb') b.2 (by simp) same

theorem Matched.single (distinct : (parameters.map (·.name)).Nodup)
    (h : Matched parameters arguments bound) (apart : ¬ Overlaps parameters arguments) :
    (bound.map (·.2)).Nodup := by
  have members {b : Argument × Parameter} (hb : b ∈ bound.take (required parameters).length) :
      b.2 ∈ required parameters := h.inOrder ▸ List.mem_map_of_mem hb
  rw [← List.take_append_drop (required parameters).length bound, List.map_append,
    List.nodup_append]
  refine ⟨?_, ?_, ?_⟩
  · rw [h.inOrder]
    exact distinct.of_map.filter _
  · refine List.pairwise_map.mpr (List.pairwise_iff_forall_sublist.mpr ?_)
    intro b b' sublist same
    have behind := List.pairwise_iff_forall_sublist.mp h.shared
      (sublist.trans (List.drop_sublist ..))
    obtain ⟨isNamed, unnamed⟩ := behind same
    obtain ⟨name, hname⟩ := Option.isSome_iff_exists.mp isNamed
    obtain ⟨first, last, split, hb, hb'⟩ := List.cons_sublist_iff.mp sublist
    obtain ⟨middle, after, rfl⟩ := List.append_of_mem (List.singleton_sublist.mp hb')
    rw [← List.append_assoc] at split
    refine apart ⟨(first ++ middle).map (·.1), b'.1, after.map (·.1), ?_, unnamed, b.1,
      List.mem_map_of_mem (by simp [hb]), name, hname, ?_⟩
    · rw [← h.all, ← List.map_drop, split, List.map_append, List.map_cons]
    · rw [h.reached split unnamed, ← same]
      exact congrArg some (h.named b (split ▸ by simp [hb]) name hname).2
  · rintro x hx _ hy rfl
    obtain ⟨b, hb, rfl⟩ := List.mem_map.mp hx
    obtain ⟨b', hb', same⟩ := List.mem_map.mp hy
    have required := (List.mem_filter.mp (members hb)).2
    have optional := (List.mem_filter.mp (h.mem_optional hb')).2
    rw [same] at optional
    simp [optional] at required

/-- A call in which nothing is wrong is legal, unless an argument has another name than the required
parameter in its place, or one without a name comes to a parameter that is given by name. -/
theorem Matched.legal_iff (distinct : (parameters.map (·.name)).Nodup)
    (h : Matched parameters arguments bound) :
    Legal parameters bound ↔ ¬ Misnames parameters arguments ∧ ¬ Overlaps parameters arguments := by
  constructor
  · intro legal
    refine ⟨?_, h.not_overlaps distinct legal.single⟩
    rintro ⟨b, hb, name, hname, differs⟩
    rw [← h.take_eq] at hb
    exact differs (legal.named b (List.mem_of_mem_take hb) name hname)
  · rintro ⟨named, apart⟩
    refine ⟨h.once, h.single distinct apart, fun b hb name hname => ?_⟩
    rw [← List.take_append_drop (required parameters).length bound, List.mem_append] at hb
    rcases hb with hb | hb
    · rw [h.take_eq] at hb
      by_contra differs
      exact named ⟨b, hb, name, hname, differs⟩
    · exact (h.named b hb name hname).2

end

end PapyrusAnalysis.Call
