import InterpolationLint.Config.Basic
import InterpolationLint.Proofs.Suppression.Site

/-!
# Switches of rules

A rule is on unless a config has it switched off, so the order in which rules are switched off does
not matter, nor how often.
-/

namespace InterpolationLint

/-! ## The rules that are on -/

theorem Rule.ofName?_eq_some_iff {text : String} {rule : Rule} :
    Rule.ofName? text = some rule ↔ text = rule.name := by
  constructor
  · intro h
    simpa [eq_comm] using List.find?_some h
  · rintro rfl
    exact Rule.ofName?_name rule

namespace RuleSet

theorem eq_of_has {a b : RuleSet} (h : ∀ rule, a.has rule = b.has rule) : a = b := by
  obtain ⟨d, u⟩ := a
  obtain ⟨d', u'⟩ := b
  rw [mk.injEq]
  exact ⟨h .dollarBrace, h .unnecessaryInterpolation⟩

def switch (rules : RuleSet) (name : String) (on : Bool) : RuleSet :=
  match Rule.ofName? name with
  | some rule => rules.set rule on
  | none => rules

theorem has_switch (rules : RuleSet) (name : String) (on : Bool) (rule : Rule) :
    (rules.switch name on).has rule = if rule.name = name then on else rules.has rule := by
  unfold switch
  cases hname : Rule.ofName? name with
  | none =>
    have hne : rule.name ≠ name := by
      rintro rfl
      rw [Rule.ofName?_name] at hname
      cases hname
    simp [hne]
  | some other =>
    obtain rfl := Rule.ofName?_eq_some_iff.mp hname
    cases rule <;> cases other <;> rfl

theorem has_foldl_switch {switches : List (String × Bool)}
    (h : switches.Pairwise fun a b => a.1 < b.1) (rules : RuleSet) (rule : Rule) :
    (switches.foldl (fun rules entry => rules.switch entry.1 entry.2) rules).has rule =
      (switches.lookup rule.name).getD (rules.has rule) := by
  induction switches generalizing rules with
  | nil => rfl
  | cons entry rest ih =>
    obtain ⟨name, on⟩ := entry
    obtain ⟨hname, hrest⟩ := List.pairwise_cons.mp h
    rw [List.foldl_cons, ih hrest, has_switch, lookup_cons_eq]
    by_cases heq : rule.name = name
    · -- no later switch has this name
      have hnone : rest.lookup rule.name = none := by
        rw [List.lookup_eq_none_iff]
        intro entry hentry
        have hlt := hname entry hentry
        rw [← heq] at hlt
        simpa using String.ne_of_lt hlt
      simp [heq ▸ hnone, heq]
    · simp [heq]

end RuleSet

theorem Config.has_ruleSet (config : Config) (rule : Rule) :
    config.ruleSet.has rule = (config.switches.get? rule.name).getD true := by
  have hall : RuleSet.all.has rule = true := by cases rule <;> rfl
  have hfold : config.ruleSet = config.switches.entries.foldl
      (fun rules entry => rules.switch entry.1 entry.2) RuleSet.all := rfl
  rw [hfold, RuleSet.has_foldl_switch config.switches.ordered, hall]
  rfl

/-! ## Switching rules off -/

namespace Config

def disable (config : Config) (names : List String) : Config :=
  names.foldl (fun config name => config.setRule name false) config

theorem get?_disable (config : Config) (names : List String) (name : String) :
    (config.disable names).switches.get? name =
      if name ∈ names then some false else config.switches.get? name := by
  induction names generalizing config with
  | nil => simp [disable]
  | cons first names ih =>
    rw [disable, List.foldl_cons, ← disable, ih, setRule, NameMap.get?_insert]
    by_cases hfirst : name = first <;> simp [hfirst]

section
variable (readPattern : PatternReader) (config : Config)

/-- Switching off known rules raises no problem and hides none. -/
theorem problem?_disable {names : List String}
    (h : ∀ name ∈ names, (Rule.ofName? name).isSome) :
    (config.disable names).problem? readPattern = config.problem? readPattern := by
  induction names generalizing config with
  | nil => rfl
  | cons name names ih =>
    have hknown : (Rule.ofName? name).isNone = false := by
      simpa [Option.isSome_iff_ne_none] using h name List.mem_cons_self
    have hrest := ih (config.setRule name false) fun n hn => h n (List.mem_cons_of_mem name hn)
    rw [disable, List.foldl_cons, ← disable, hrest]
    unfold problem? setRule
    dsimp only
    rw [NameMap.findSome?_insert]
    intro on
    simp [hknown]

theorem skips_disable (names : List String) :
    (config.disable names).skips readPattern = config.skips readPattern := by
  induction names generalizing config with
  | nil => rfl
  | cons name names ih => exact ih (config.setRule name false)

end

end Config

end InterpolationLint
