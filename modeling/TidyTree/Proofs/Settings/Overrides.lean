import TidyTree.Proofs.Scalar.Order
import TidyTree.Proofs.Settings.Values
import TidyTree.Scalar.Binary64

set_option autoImplicit false
set_option relaxedAutoImplicit false

/-!
# Settings from any environment

Whatever the texts of the variables, the settings are in order, and a field holds its standard value
or what its own variable is read as. If nothing is reported, every text was taken over. The converse
fails in one way: both ends of the extent of the scale are put back together, so a greatest scale in
order is lost to a least scale that is not positive, and the report is about the least scale alone.
-/

namespace TidyTree

variable {α : Type} [Scalar α]

def Variable.read? : (v : Variable) → String → Option (v.Value α)
  | animation => Environment.duration?
  | minScale => Environment.number? (α := α)
  | maxScale => Environment.number? (α := α)
  | fontSize => Environment.number? (α := α)
  | fontFamily => Environment.family?
  | zoomRequiresCtrl => Environment.flag?
  | theme => Theme.ofName?
  | rowSpacing => Environment.number? (α := α)
  | minColumnWidth => Environment.number? (α := α)

namespace Environment

def reading? (env : Environment) (v : Variable) : Option (v.Value α) := (env v).bind v.read?

variable {s s' : Settings α} {v : Variable} {text : String}

private theorem override?_eq_none_iff :
    override? s v text = none ↔ (v.read? text : Option (v.Value α)) = none := by
  cases v <;> exact Option.map_eq_none_iff

private theorem override?_eq_some (h : override? s v text = some s') :
    v.read? text = some (s'.value v) ∧ (∀ w ≠ v, s'.value w = s.value w) ∧
      (s.IsOverriding → s'.IsOverriding) := by
  cases v
  all_goals
    obtain ⟨x, read, rfl⟩ := Option.map_eq_some_iff.mp h
    refine ⟨read, fun w other => ?_, fun overriding => ?_⟩
    · cases w <;> first | rfl | exact absurd rfl other
    · rw [overriding]; rfl

private theorem value_takeOver (env : Environment) (s : Settings α) (v w : Variable) :
    (takeOver env s v).value w =
      if w = v then (env.reading? w).getD (s.value w) else s.value w := by
  unfold takeOver
  cases taken : (env v).bind (override? s v) with
  | none =>
    have unread : (env.reading? v : Option (v.Value α)) = none := by
      rw [Option.bind_eq_none_iff] at taken
      exact Option.bind_eq_none_iff.mpr fun text set => override?_eq_none_iff.mp (taken text set)
    split
    · next same =>
      subst same
      rw [unread]
      rfl
    · rfl
  | some s' =>
    obtain ⟨text, set, overrides⟩ := Option.bind_eq_some_iff.mp taken
    obtain ⟨read, others, _⟩ := override?_eq_some overrides
    split
    · next same =>
      subst same
      rw [reading?, set, Option.bind_some, read]
      rfl
    · next other => exact others w other

private theorem isOverriding_takeOver (env : Environment) (h : s.IsOverriding) (v : Variable) :
    (takeOver env s v).IsOverriding := by
  unfold takeOver
  cases taken : (env v).bind (override? s v) with
  | none => exact h
  | some s' =>
    obtain ⟨text, _, read⟩ := Option.bind_eq_some_iff.mp taken
    exact (override?_eq_some read).2.2 h

private theorem value_takeOverAll (env : Environment) (s : Settings α) (vs : List Variable)
    (w : Variable) :
    (vs.foldl (takeOver env) s).value w =
      if w ∈ vs then (env.reading? w).getD (s.value w) else s.value w := by
  induction vs generalizing s with
  | nil => rfl
  | cons v vs ih =>
    rw [List.foldl_cons, ih, value_takeOver]
    by_cases same : w = v
    · subst same
      rw [if_pos rfl, if_pos List.mem_cons_self]
      split
      · cases (env.reading? w : Option (w.Value α)) <;> rfl
      · rfl
    · rw [if_neg same]
      simp only [List.mem_cons, same, false_or]

private theorem value_overridden (env : Environment) (v : Variable) :
    (overridden env : Settings α).value v =
      (env.reading? v).getD ((Settings.standard : Settings α).value v) := by
  have listed : v ∈ Variable.all := by
    cases v <;> decide
  rw [overridden, value_takeOverAll, if_pos listed]

private theorem isOverriding_takeOverAll (env : Environment) (h : s.IsOverriding)
    (vs : List Variable) :
    (vs.foldl (takeOver env) s).IsOverriding := by
  induction vs generalizing s with
  | nil => exact h
  | cons v vs ih => exact ih (isOverriding_takeOver env h v)

private theorem isOverriding_overridden (env : Environment) :
    (overridden env : Settings α).IsOverriding :=
  isOverriding_takeOverAll env Settings.isOverriding_standard Variable.all

private theorem value_settings (env : Environment) (v : Variable) :
    (settings env : Settings α).value v =
      if ∃ p ∈ (overridden env : Settings α).problems, v ∈ p.setting.putsBack then
        (Settings.standard : Settings α).value v
      else (env.reading? v).getD ((Settings.standard : Settings α).value v) := by
  rw [settings, Settings.restored, Settings.value_restoreAll, value_overridden]

private theorem isOverriding_settings (env : Environment) :
    (settings env : Settings α).IsOverriding :=
  Settings.isOverriding_restoreAll (isOverriding_overridden env) _

private theorem problem?_eq_some_iff {env : Environment} {v : Variable} {p : Problem α} :
    problem? env v = some p ↔
      ∃ text, env v = some text ∧ (v.read? text : Option (v.Value α)) = none ∧
        p = .unreadable v.setting text := by
  unfold problem?
  cases set : env v with
  | none => simp
  | some text =>
    have unread : override? (.standard : Settings α) v text = none ↔
        (v.read? text : Option (v.Value α)) = none := override?_eq_none_iff
    show (if (override? (.standard : Settings α) v text).isSome then none
      else some (.unreadable v.setting text)) = some p ↔ _
    cases taken : override? (.standard : Settings α) v text with
    | none => simp [unread.mp taken, eq_comm]
    | some s => simp [(override?_eq_some taken).1]

/-- What is reported of an environment: the variables that cannot be read, and what is out of order
when the others are taken over. -/
theorem mem_problems_iff {env : Environment} {p : Problem α} :
    p ∈ (problems env : List (Problem α)) ↔
      (∃ v text, env v = some text ∧ (v.read? text : Option (v.Value α)) = none ∧
        p = .unreadable v.setting text) ∨ (overridden env : Settings α).Has p := by
  have listed : ∀ v, v ∈ Variable.all := by
    intro v
    cases v <;> decide
  rw [problems, List.mem_append, Settings.mem_problems_iff, unreadable, List.mem_filterMap]
  simp only [problem?_eq_some_iff, listed, true_and]

end Environment

/-- The settings hold what every variable that is set is read as, and the standard elsewhere. -/
structure Settings.Takes (s : Settings α) (env : Environment) : Prop where
  set : ∀ v text, env v = some text → v.read? text = some (s.value v)
  unset : ∀ v, env v = none → s.value v = (standard : Settings α).value v
  overriding : s.IsOverriding

namespace Environment

/-- All variables that are set can be read. -/
def IsReadable (α : Type) [Scalar α] (env : Environment) : Prop :=
  ∀ v text, env v = some text → (v.read? text : Option (v.Value α)).isSome = true

private theorem IsReadable.takes {env : Environment} (h : env.IsReadable α) :
    (overridden env : Settings α).Takes env where
  set := by
    intro v text set
    obtain ⟨x, read⟩ := Option.isSome_iff_exists.mp (h v text set)
    rw [value_overridden, reading?, set, Option.bind_some, read]
    rfl
  unset := by
    intro v unset
    rw [value_overridden, reading?, unset]
    rfl
  overriding := isOverriding_overridden env

end Environment

private theorem Settings.Takes.eq_overridden {s : Settings α} {env : Environment} (h : s.Takes env)
    :
    s = Environment.overridden env := by
  have values : s.value = (Environment.overridden env : Settings α).value := by
    funext v
    rw [Environment.value_overridden, Environment.reading?]
    cases set : env v with
    | none => exact h.unset v set
    | some text =>
      rw [Option.bind_some, h.set v text set]
      rfl
  rw [h.overriding, values]
  exact (Environment.isOverriding_overridden env).symm

namespace Environment

private theorem problems_eq_nil_iff {env : Environment} :
    (problems env : List (Problem α)) = [] ↔
      env.IsReadable α ∧ (overridden env : Settings α).isValid = true := by
  rw [Settings.isValid, List.isEmpty_iff]
  constructor
  · intro silent
    refine ⟨fun v text set => ?_, (List.append_eq_nil_iff.mp silent).2⟩
    by_contra unread
    rw [Option.not_isSome_iff_eq_none] at unread
    have reported : .unreadable v.setting text ∈ (problems env : List (Problem α)) :=
      mem_problems_iff.mpr (Or.inl ⟨v, text, set, unread, rfl⟩)
    rw [silent] at reported
    exact List.not_mem_nil reported
  · rintro ⟨readable, valid⟩
    rw [List.eq_nil_iff_forall_not_mem]
    intro p reported
    rcases mem_problems_iff.mp reported with ⟨v, text, set, unread, rfl⟩ | has
    · have read := readable v text set
      rw [unread] at read
      exact Bool.false_ne_true read
    · rw [← Settings.mem_problems_iff, valid] at has
      exact List.not_mem_nil has

private theorem settings_eq_overridden {env : Environment}
    (silent : (problems env : List (Problem α)) = []) :
    (settings env : Settings α) = overridden env := by
  rw [settings, Settings.restored, (List.append_eq_nil_iff.mp silent).2]
  rfl

private theorem value_settings_cases (env : Environment) (v : Variable) :
    (settings env : Settings α).value v = (Settings.standard : Settings α).value v ∨
      env.reading? v = some ((settings env : Settings α).value v) := by
  rw [value_settings]
  split
  · exact Or.inl rfl
  · cases read : (env.reading? v : Option (v.Value α)) with
    | none => exact Or.inl rfl
    | some x => exact Or.inr rfl

/-- The settings of an environment are always in order. Nothing is reported exactly if all that is
set can be read and the settings that hold it are in order, and then these are the settings. In any
case every field holds its standard value or what its own variable is read as. -/
theorem isValid_settings (env : Environment) :
    (settings env : Settings Float).isValid = true ∧
    ((problems env : List (Problem Float)) = [] ↔
      env.IsReadable Float ∧ ∃ s : Settings Float, s.Takes env ∧ s.isValid = true) ∧
    ((problems env : List (Problem Float)) = [] → (settings env : Settings Float).Takes env) ∧
    (settings env : Settings Float).IsOverriding ∧
    ∀ v, (settings env : Settings Float).value v = (Settings.standard : Settings Float).value v ∨
      ∃ text, env v = some text ∧ v.read? text = some ((settings env : Settings Float).value v) := by
  have stock : (Settings.standard : Settings Float).isValid = true := by decide +kernel
  refine ⟨Settings.isValid_restored stock (isOverriding_overridden env), ?_, ?_,
    isOverriding_settings env, fun v => ?_⟩
  · rw [problems_eq_nil_iff]
    constructor
    · rintro ⟨readable, valid⟩
      exact ⟨readable, overridden env, readable.takes, valid⟩
    · rintro ⟨readable, s, takes, valid⟩
      exact ⟨readable, takes.eq_overridden ▸ valid⟩
  · intro silent
    rw [settings_eq_overridden silent]
    exact (problems_eq_nil_iff.mp silent).1.takes
  · refine (value_settings_cases env v).imp_right fun read => ?_
    exact Option.bind_eq_some_iff.mp read

end Environment

/-- A problem with the setting tells of the field of the variable. One with the extent tells of both
of its ends. -/
def Setting.tellsOf (setting : Setting) (v : Variable) : Bool :=
  setting = v.setting || (setting = .scaleExtent && (v = .minScale || v = .maxScale))

private theorem Variable.tellsOf_setting (v : Variable) : v.setting.tellsOf v = true := by
  cases v <;> rfl

private theorem Variable.eq_of_tellsOf {v w : Variable} (h : w.setting.tellsOf v = true) : w = v
    := by
  revert h
  cases v <;> cases w <;> decide

private theorem Setting.tellsOf_of_putsBack {setting : Setting} {v : Variable}
    (h : v ∈ setting.putsBack) :
    setting.tellsOf v = true ∨ (v = .minScale ∧ setting = .maxScale) ∨
      (v = .maxScale ∧ setting = .minScale) := by
  revert h
  cases setting <;> cases v <;> decide

namespace Settings

private theorem Has.eq_notPositive {s : Settings α} {p : Problem α} (h : s.Has p)
    (scale : p.setting = .minScale ∨ p.setting = .maxScale) :
    ∃ x, p = .notPositive p.setting x ∧ s.length? p.setting = some x ∧
      Scalar.isPositive x = false := by
  cases p with
  | unreadable => exact h.elim
  | notPositive setting x => exact ⟨x, rfl, h⟩
  | _ => exact absurd scale (by simp [Problem.setting])

end Settings

namespace Environment

/-- The variable is set, its field holds something else than it is read as, and nothing that is
reported tells of the field. -/
structure Drops (α : Type) [Scalar α] (env : Environment) (v : Variable) : Prop where
  set : (env v).isSome = true
  lost : env.reading? v ≠ some ((settings env : Settings α).value v)
  silent : ∀ p ∈ (problems env : List (Problem α)), p.setting.tellsOf v = false

private theorem isFinite_of_number? {text : String} {x : α} (h : number? text = some x) :
    Scalar.isFinite x = true := by
  obtain ⟨numeral, _, finite⟩ := Option.bind_eq_some_iff.mp h
  unfold Decimal.Numeral.toFinite? at finite
  split at finite
  · dsimp only at finite
    split at finite
    · next known => exact Option.some.inj finite ▸ known
    · exact absurd finite (by simp)
  · exact absurd finite (by simp)

private theorem isPositive_of_silent {env : Environment} {v : Variable} {x : α}
    (silent : ∀ p ∈ (problems env : List (Problem α)), p.setting.tellsOf v = false)
    (field : (overridden env : Settings α).length? v.setting = some x) :
    Scalar.isPositive x = true := by
  by_contra low
  have reported : .notPositive v.setting x ∈ (problems env : List (Problem α)) :=
    mem_problems_iff.mpr (Or.inr ⟨field, Bool.not_eq_true _ ▸ low⟩)
  exact absurd (silent _ reported) (by simp [Problem.setting, Variable.tellsOf_setting])

private theorem Drops.exists_reading {env : Environment} {v : Variable} (h : env.Drops α v) :
    ∃ x : v.Value α, env.reading? v = some x := by
  obtain ⟨text, set⟩ := Option.isSome_iff_exists.mp h.set
  cases read : (v.read? text : Option (v.Value α)) with
  | none =>
    have reported : .unreadable v.setting text ∈ (problems env : List (Problem α)) :=
      mem_problems_iff.mpr (Or.inl ⟨v, text, set, read, rfl⟩)
    exact absurd (h.silent _ reported) (by simp [Problem.setting, Variable.tellsOf_setting])
  | some x => exact ⟨x, by rw [reading?, set, Option.bind_some, read]⟩

private theorem Drops.exists_putsBack {env : Environment} {v : Variable} (h : env.Drops α v) :
    ∃ p, (overridden env : Settings α).Has p ∧
      ((v = .minScale ∧ p.setting = .maxScale) ∨ (v = .maxScale ∧ p.setting = .minScale)) := by
  obtain ⟨x, read⟩ := h.exists_reading
  have back : ∃ p ∈ (overridden env : Settings α).problems, v ∈ p.setting.putsBack := by
    by_contra kept
    refine h.lost ?_
    rw [value_settings, if_neg kept, read]
    rfl
  obtain ⟨p, hp, back⟩ := back
  rw [Settings.mem_problems_iff] at hp
  rcases Setting.tellsOf_of_putsBack back with named | other
  · rw [h.silent p (mem_problems_iff.mpr (Or.inr hp))] at named
    exact absurd named Bool.false_ne_true
  · exact ⟨p, hp, other⟩

private theorem isFinite_getD_number? {env : Environment} {v : Variable} {standard : Float}
    (finite : Scalar.isFinite standard = true) :
    Scalar.isFinite (((env v).bind number?).getD standard) = true := by
  cases read : ((env v).bind number? : Option Float) with
  | none => exact finite
  | some x =>
    obtain ⟨text, _, number⟩ := Option.bind_eq_some_iff.mp read
    exact isFinite_of_number? number

private theorem extent_overridden (env : Environment) :
    (overridden env : Settings Float).window.extent =
        ⟨((env .minScale).bind number?).getD (Settings.standard : Settings Float).window.extent.min,
          ((env .maxScale).bind number?).getD (Settings.standard : Settings Float).window.extent.max⟩ ∧
      Scalar.isFinite (overridden env : Settings Float).window.extent.min = true ∧
      Scalar.isFinite (overridden env : Settings Float).window.extent.max = true := by
  have min : (overridden env : Settings Float).window.extent.min = ((env .minScale).bind number?).getD
      (Settings.standard : Settings Float).window.extent.min := value_overridden env .minScale
  have max : (overridden env : Settings Float).window.extent.max = ((env .maxScale).bind number?).getD
      (Settings.standard : Settings Float).window.extent.max := value_overridden env .maxScale
  refine ⟨?_, ?_, ?_⟩
  · rw [← min, ← max]
  · rw [min]
    exact isFinite_getD_number? (by decide +kernel)
  · rw [max]
    exact isFinite_getD_number? (by decide +kernel)

private theorem isPositive_iff {x : Float} (finite : Scalar.isFinite x = true) :
    Scalar.isPositive x = true ↔ 0 < x := by
  rw [Scalar.isPositive, finite, Bool.true_and, decide_eq_true_eq]

private theorem Drops.eq_maxScale {env : Environment} {v : Variable} (h : env.Drops Float v) :
    v = .maxScale ∧ ¬ 0 < (overridden env : Settings Float).window.extent.min ∧
      0 < (overridden env : Settings Float).window.extent.max := by
  obtain ⟨_, minFinite, maxFinite⟩ := extent_overridden env
  obtain ⟨p, has, ⟨rfl, scale⟩ | ⟨rfl, scale⟩⟩ := h.exists_putsBack
  · -- The greatest scale is not positive but the least one is, so the extent is inverted.
    obtain ⟨most, _, field, low⟩ := has.eq_notPositive (Or.inr scale)
    rw [scale] at field
    obtain rfl := Option.some.inj field
    have high := isPositive_of_silent h.silent rfl
    rw [isPositive_iff minFinite] at high
    rw [← Bool.not_eq_true, isPositive_iff maxFinite] at low
    have inverted := Scalar.float_lt_of_not_pos
      (Scalar.LawfulOrder.isNaN_of_isFinite maxFinite) low high
    have reported : .invertedExtent (overridden env : Settings Float).window.extent ∈
        (problems env : List (Problem Float)) := mem_problems_iff.mpr (Or.inr ⟨rfl, inverted⟩)
    exact absurd (h.silent _ reported) Bool.noConfusion
  · obtain ⟨least, _, field, low⟩ := has.eq_notPositive (Or.inl scale)
    rw [scale] at field
    obtain rfl := Option.some.inj field
    have high := isPositive_of_silent h.silent rfl
    rw [isPositive_iff maxFinite] at high
    rw [← Bool.not_eq_true, isPositive_iff minFinite] at low
    exact ⟨rfl, low, high⟩

private theorem drops_maxScale {env : Environment} {least most : Float}
    (readLeast : (env .minScale).bind number? = some least)
    (readMost : (env .maxScale).bind number? = some most) (low : ¬ 0 < least) (high : 0 < most)
    (other : most ≠ (Settings.standard : Settings Float).window.extent.max) :
    env.Drops Float .maxScale := by
  obtain ⟨extent, minFinite, maxFinite⟩ := extent_overridden env
  replace extent : (overridden env : Settings Float).window.extent = ⟨least, most⟩ := by
    rw [extent, readLeast, readMost]
    rfl
  rw [extent] at minFinite maxFinite
  have bad : (overridden env : Settings Float).Has (.notPositive .minScale least) := by
    refine ⟨congrArg (fun e : ScaleExtent Float => some e.min) extent, ?_⟩
    rw [← Bool.not_eq_true, isPositive_iff minFinite]
    exact low
  constructor
  case set =>
    obtain ⟨text, set, _⟩ := Option.bind_eq_some_iff.mp readMost
    rw [set]
    rfl
  case lost =>
    have back : ∃ p ∈ (overridden env : Settings Float).problems,
        Variable.maxScale ∈ p.setting.putsBack :=
      ⟨_, Settings.mem_problems_iff.mpr bad, List.mem_cons_of_mem _ List.mem_cons_self⟩
    rw [value_settings, if_pos back]
    exact fun same => other (Option.some.inj (readMost.symm.trans same))
  case silent =>
    intro p reported
    rw [← Bool.not_eq_true]
    intro told
    rcases mem_problems_iff.mp reported with ⟨w, text, set, unread, rfl⟩ | has
    · obtain rfl := Variable.eq_of_tellsOf told
      rw [set] at readMost
      exact absurd (readMost.symm.trans unread) (by simp)
    · cases p with
      | unreadable setting text => exact has
      | notPositive setting x =>
        obtain ⟨field, notPositive⟩ := has
        have same : setting = .maxScale := by
          revert told field
          cases setting <;>
            simp [Setting.tellsOf, Settings.length?, Problem.setting, Variable.setting]
        subst same
        obtain rfl := Option.some.inj field
        rw [extent, ← Bool.not_eq_true, isPositive_iff maxFinite] at notPositive
        exact notPositive high
      | invertedExtent e =>
        obtain ⟨rfl, inverted⟩ := has
        rw [extent] at inverted
        have less := Scalar.float_lt_of_not_pos
          (Scalar.LawfulOrder.isNaN_of_isFinite minFinite) low high
        exact Scalar.float_not_lt_of_lt less inverted
      | closeRows x => exact Bool.false_ne_true told
      | noClickDistance x => exact Bool.false_ne_true told

/-- A variable is dropped exactly if it is the greatest scale, which is in order, while the variable
of the least scale is not positive: both get their standard values back, and only the least scale is
reported. -/
theorem drops_iff (env : Environment) (v : Variable) :
    env.Drops Float v ↔ v = .maxScale ∧ ∃ least most : Float,
      (env .minScale).bind number? = some least ∧ (env .maxScale).bind number? = some most ∧
        ¬ 0 < least ∧ 0 < most ∧ most ≠ (Settings.standard : Settings Float).window.extent.max := by
  constructor
  · intro dropped
    obtain ⟨rfl, low, high⟩ := dropped.eq_maxScale
    obtain ⟨extent, _⟩ := extent_overridden env
    have back := (value_settings_cases env .maxScale).resolve_right dropped.lost
    have asked : ∃ most : Float, (env .maxScale).bind number? = some most :=
      dropped.exists_reading
    obtain ⟨most, readMost⟩ := asked
    rw [extent, readMost] at high
    have other : most ≠ (Settings.standard : Settings Float).window.extent.max := by
      rintro rfl
      exact dropped.lost (readMost.trans (congrArg some back.symm))
    cases readLeast : ((env .minScale).bind number? : Option Float) with
    | none =>
      have stock : 0 < (Settings.standard : Settings Float).window.extent.min := by decide +kernel
      rw [extent, readLeast] at low
      exact absurd stock low
    | some least =>
      rw [extent, readLeast] at low
      exact ⟨rfl, least, most, rfl, readMost, low, high, other⟩
  · rintro ⟨rfl, least, most, readLeast, readMost, low, high, other⟩
    exact drops_maxScale readLeast readMost low high other

/-- A greatest scale that is in order gives way to the standard one without a word. -/
theorem drops_of_negative :
    ∃ env : Environment, env .minScale = some "-1" ∧ env .maxScale = some "2" ∧
      (settings env : Settings Float).window.extent.max = 4 ∧
        (problems env : List (Problem Float)) = [.notPositive .minScale (-1)] ∧
          env.Drops Float .maxScale := by
  let env : Environment := fun v =>
    if v = .minScale then some "-1" else if v = .maxScale then some "2" else none
  have least : (env .minScale).bind number? = some (-1 : Float) := by decide +kernel
  have most : (env .maxScale).bind number? = some (2 : Float) := by decide +kernel
  exact ⟨env, rfl, rfl, by decide +kernel, by decide +kernel,
    drops_maxScale least most (by decide +kernel) (by decide +kernel) (by decide +kernel)⟩

end Environment

end TidyTree
