import Mathlib.Data.List.Forall2
import StructEdit.Indent.Config

/-!
# User rules over the built-in ones

The rules of a user are a map from symbols to rows of rules. A map has no order of its own: it is
gone through in one order or another, each symbol once, and each row replaces what the table had for
its symbol. The first rule that stands for nothing ends this with an error.

No row is ever looked at again once it is in the table, since its symbol does not come back. So the
table that comes out is known from the members of the map alone, and `Overrides` says it without an
order. With an invalid rule in the map, no order leads to a table. Which of the invalid rules the
error tells of is then a matter of the order.
-/
namespace StructEdit

/-! ## Rows of rules -/

namespace RawRule

/-- What a rule as it is written stands for. -/
inductive Means : RawRule → IndentRule → Prop
  | block (args : Nat) : Means ⟨"block".toList, args, none⟩ (.block args)
  | inner (depth : Nat) (limit : Option Nat) :
      Means ⟨"inner".toList, depth, limit⟩ (.inner depth limit)

theorem check_eq_ok_iff {r : RawRule} {rule : IndentRule} : r.check = .ok rule ↔ r.Means rule := by
  constructor
  · intro h
    obtain ⟨kind, count, limit⟩ := r
    unfold check at h
    split at h
    · rename_i hinner
      obtain rfl : kind = "inner".toList := hinner
      obtain rfl := Except.ok.inj h
      exact .inner count limit
    · split at h
      · rename_i hblock
        obtain rfl : kind = "block".toList := hblock
        cases limit with
        | none =>
          obtain rfl := Except.ok.inj h
          exact .block count
        | some limit => cases h
      · cases h
  · rintro (args | ⟨depth, limit⟩) <;> rfl

variable {raws : List RawRule} {rules : List IndentRule} {fault : RuleFault}

theorem checkAll_cons (r : RawRule) (raws : List RawRule) :
    (r :: raws).mapM check =
      match r.check, raws.mapM check with
      | .ok rule, .ok rules => .ok (rule :: rules)
      | .ok _, .error fault => .error fault
      | .error fault, _ => .error fault := by
  rw [List.mapM_cons]
  cases r.check with
  | error fault => rfl
  | ok rule => cases raws.mapM check <;> rfl

/-- A row is taken over rule by rule, in its order. -/
theorem checkAll_eq_ok_iff : raws.mapM check = .ok rules ↔ List.Forall₂ Means raws rules := by
  induction raws generalizing rules with
  | nil =>
    rw [List.forall₂_nil_left_iff]
    exact ⟨fun h => (Except.ok.inj h).symm, fun h => h ▸ rfl⟩
  | cons r raws ih =>
    rw [checkAll_cons, List.forall₂_cons_left_iff]
    simp only [← check_eq_ok_iff, ← ih]
    cases r.check with
    | error fault => simp
    | ok rule => cases raws.mapM check <;> simp [eq_comm]

theorem mem_of_checkAll_eq_error (h : raws.mapM check = .error fault) :
    ∃ r ∈ raws, r.check = .error fault := by
  induction raws with
  | nil => cases h
  | cons r raws ih =>
    rw [checkAll_cons] at h
    cases hr : r.check with
    | error found =>
      rw [hr] at h
      exact ⟨r, List.mem_cons_self, hr.trans (congrArg _ (Except.error.inj h))⟩
    | ok rule =>
      rw [hr] at h
      cases hraws : raws.mapM check with
      | ok rules =>
        rw [hraws] at h
        cases h
      | error found =>
        rw [hraws] at h
        obtain ⟨s, hs, hcheck⟩ := ih (hraws.trans (congrArg _ (Except.error.inj h)))
        exact ⟨s, List.mem_cons_of_mem r hs, hcheck⟩

end RawRule

/-! ## Maps of rows -/

namespace RawSettings

variable {t u : RuleTable} {user visited : List (Text × List RawRule)} {e : ConfigError}

/-- The table `u` has the rows of the user for the symbols of the user, and what `t` has for all
others. -/
structure Overrides (t : RuleTable) (user : List (Text × List RawRule)) (u : RuleTable) : Prop where
  of_mem : ∀ symbol raws, (symbol, raws) ∈ user →
    ∃ rules, u.get? symbol = some rules ∧ List.Forall₂ RawRule.Means raws rules
  of_not_mem : ∀ symbol, symbol ∉ user.map Prod.fst → u.get? symbol = t.get? symbol

/-- Every rule of the user stands for one. -/
def Valid (user : List (Text × List RawRule)) : Prop :=
  ∀ entry ∈ user, ∀ r ∈ entry.2, ∃ rule, r.Means rule

theorem Overrides.perm (h : Overrides t visited u) (hperm : visited.Perm user) :
    Overrides t user u where
  of_mem symbol raws hmem := h.of_mem symbol raws (hperm.mem_iff.2 hmem)
  of_not_mem symbol hnew := h.of_not_mem symbol fun hmem =>
    hnew ((hperm.map Prod.fst).mem_iff.1 hmem)

theorem Overrides.valid (h : Overrides t user u) : Valid user := by
  rintro ⟨symbol, raws⟩ hmem r hr
  obtain ⟨rules, -, hmeans⟩ := h.of_mem symbol raws hmem
  obtain ⟨i, hi, rfl⟩ := List.getElem_of_mem hr
  exact ⟨_, hmeans.get hi (hmeans.length_eq ▸ hi)⟩

theorem Overrides.get_of_mem (h : Overrides t user u) {symbol : Text} {raws : List RawRule}
    (hmem : (symbol, raws) ∈ user) : List.Forall₂ RawRule.Means raws (u.get symbol) := by
  obtain ⟨rules, hrules, hmeans⟩ := h.of_mem symbol raws hmem
  rwa [RuleTable.get, hrules]

theorem Overrides.get_of_not_mem (h : Overrides t user u) {symbol : Text}
    (hnew : symbol ∉ user.map Prod.fst) : u.get symbol = t.get symbol := by
  rw [RuleTable.get, h.of_not_mem symbol hnew, RuleTable.get]

/-- A table that came out overrides the one it was made from. -/
theorem overrides_of_merge (hkeys : (visited.map Prod.fst).Nodup)
    (h : merge t visited = .ok u) : Overrides t visited u := by
  induction visited generalizing t with
  | nil =>
    obtain rfl := Except.ok.inj h
    exact ⟨by simp, fun _ _ => rfl⟩
  | cons entry visited ih =>
    obtain ⟨symbol, raws⟩ := entry
    obtain ⟨hnew, hkeys⟩ := List.nodup_cons.1 hkeys
    unfold merge at h
    split at h
    · rename_i rules hrules
      have hrest := ih hkeys h
      have hkept : u.get? symbol = some rules := by
        rw [hrest.of_not_mem symbol hnew, RuleTable.get?_insert, if_pos rfl]
      refine ⟨fun s rs hmem => ?_, fun s hs => ?_⟩
      · rcases List.mem_cons.1 hmem with heq | hmem
        · obtain ⟨rfl, rfl⟩ := Prod.mk.inj heq
          exact ⟨rules, hkept, RawRule.checkAll_eq_ok_iff.1 hrules⟩
        · exact hrest.of_mem s rs hmem
      · obtain ⟨hne, hs⟩ := not_or.1 (mt List.mem_cons.2 hs)
        rw [hrest.of_not_mem s hs, RuleTable.get?_insert, if_neg hne]
    · cases h

/-- An error tells of an invalid rule, and of the symbol that it was written for. -/
theorem invalid_of_merge (h : merge t visited = .error e) :
    ∃ symbol raws r fault, e = .invalidRule symbol fault ∧ (symbol, raws) ∈ visited ∧ r ∈ raws ∧
      r.check = .error fault := by
  induction visited generalizing t with
  | nil => cases h
  | cons entry visited ih =>
    obtain ⟨symbol, raws⟩ := entry
    unfold merge at h
    split at h
    · obtain ⟨s, rs, r, fault, he, hmem, hr, hfault⟩ := ih h
      exact ⟨s, rs, r, fault, he, List.mem_cons_of_mem _ hmem, hr, hfault⟩
    · rename_i fault hfault
      obtain ⟨r, hr, hcheck⟩ := RawRule.mem_of_checkAll_eq_error hfault
      exact ⟨symbol, raws, r, fault, (Except.error.inj h).symm, List.mem_cons_self, hr, hcheck⟩

/-- In whatever order the user's map is gone through, the table overrides, or there is an error for an
invalid rule of the map. -/
theorem merge_cases (t : RuleTable) (hkeys : (user.map Prod.fst).Nodup)
    (hvisited : visited.Perm user) :
    (∃ u, merge t visited = .ok u ∧ Overrides t user u) ∨
      ∃ symbol fault raws, merge t visited = .error (.invalidRule symbol fault) ∧
        (symbol, raws) ∈ user ∧ ∃ r ∈ raws, ∀ rule, ¬ r.Means rule := by
  cases hmerge : merge t visited with
  | ok u =>
    have hvisitedKeys := (hvisited.map Prod.fst).nodup_iff.2 hkeys
    exact Or.inl ⟨u, rfl, (overrides_of_merge hvisitedKeys hmerge).perm hvisited⟩
  | error e =>
    obtain ⟨symbol, raws, r, fault, rfl, hmem, hr, hfault⟩ := invalid_of_merge hmerge
    refine Or.inr ⟨symbol, fault, raws, rfl, hvisited.mem_iff.1 hmem, r, hr, fun rule hrule => ?_⟩
    rw [RawRule.check_eq_ok_iff.2 hrule] at hfault
    cases hfault

theorem not_valid_iff : ¬ Valid user ↔ ∃ entry ∈ user, ∃ r ∈ entry.2, ∀ rule, ¬ r.Means rule := by
  simp [Valid]

/-- Settings are checked in the same way in whatever order the map of the user is gone through. A limit
of zero is an error that names it, the one for the depth before the one for the lines. After that
the first rule in the way that stands for nothing is an error, for a symbol which has such a rule.
Otherwise the settings have the limits, the row of the user rule by rule for each symbol in the map,
and the built-in row for every other symbol. -/
theorem check_overrides (maxDepth maxLines : Nat) {user visited : List (Text × List RawRule)}
    (hkeys : (user.map Prod.fst).Nodup) (hvisited : visited.Perm user) :
    let result := check ⟨maxDepth, maxLines, visited⟩
    ((∃ l : Limit, l.key = "max-depth" ∧ result = .error (.invalidLimit l)) ↔ maxDepth = 0) ∧
    ((∃ l : Limit, l.key = "max-lines" ∧ result = .error (.invalidLimit l)) ↔
      maxDepth ≠ 0 ∧ maxLines = 0) ∧
    ((∃ symbol fault, result = .error (.invalidRule symbol fault)) ↔
      maxDepth ≠ 0 ∧ maxLines ≠ 0 ∧ ∃ entry ∈ user, ∃ r ∈ entry.2, ∀ rule, ¬ r.Means rule) ∧
    (∀ symbol fault, result = .error (.invalidRule symbol fault) →
      ∃ raws, (symbol, raws) ∈ user ∧ ∃ r ∈ raws, ∀ rule, ¬ r.Means rule) ∧
    (maxDepth ≠ 0 → maxLines ≠ 0 → (∀ entry ∈ user, ∀ r ∈ entry.2, ∃ rule, r.Means rule) →
      ∃ s, result = .ok s ∧ s.maxDepth = maxDepth ∧ s.maxLines = maxLines ∧
        (∀ symbol raws, (symbol, raws) ∈ user →
          List.Forall₂ RawRule.Means raws (s.rules.get symbol)) ∧
        ∀ symbol, symbol ∉ user.map Prod.fst →
          s.rules.get symbol = RuleTable.builtin.get symbol) := by
  intro result
  have hdepth : ∀ l : Limit, l.key = "max-depth" ↔ l = .depth := by
    rintro (_ | _) <;> simp [Limit.key]
  have hlines : ∀ l : Limit, l.key = "max-lines" ↔ l = .lines := by
    rintro (_ | _) <;> simp [Limit.key]
  simp only [hdepth, hlines, exists_eq_left, ← not_valid_iff]
  by_cases hd : maxDepth = 0
  · have hresult : result = .error (.invalidLimit .depth) := if_pos hd
    simp [hresult, hd]
  by_cases hl : maxLines = 0
  · have hresult : result = .error (.invalidLimit .lines) := (if_neg hd).trans (if_pos hl)
    simp [hresult, hd, hl]
  have hresult : result = (merge .builtin visited).map fun t => ⟨maxDepth, maxLines, t⟩ :=
    (if_neg hd).trans (if_neg hl)
  rcases merge_cases .builtin hkeys hvisited with
    ⟨t, hmerge, hoverrides⟩ | ⟨symbol, fault, raws, hmerge, hmem, r, hr, hnot⟩
  · rw [hmerge] at hresult
    have hok : result = .ok ⟨maxDepth, maxLines, t⟩ := hresult
    exact ⟨by simp [hok, hd], by simp [hok, hl], by simp [hok, hoverrides.valid], by simp [hok],
      fun _ _ _ => ⟨_, hok, rfl, rfl, fun _ _ => hoverrides.get_of_mem,
        fun _ => hoverrides.get_of_not_mem⟩⟩
  · rw [hmerge] at hresult
    have hfail : result = .error (.invalidRule symbol fault) := hresult
    have hinvalid : ¬ Valid user := not_valid_iff.2 ⟨_, hmem, r, hr, hnot⟩
    refine ⟨by simp [hfail, hd], by simp [hfail, hl], by simp [hfail, hd, hl, hinvalid], ?_,
      fun _ _ hvalid => absurd hvalid hinvalid⟩
    rintro s f hsf
    obtain ⟨rfl, rfl⟩ := ConfigError.invalidRule.inj (Except.error.inj (hfail.symm.trans hsf))
    exact ⟨raws, hmem, r, hr, hnot⟩

/-- A row for a symbol with built-in rules comes behind one for a new symbol. -/
theorem check_overrides_let :
    ∃ s, check ⟨5, 20, [("my-let".toList, [⟨"block".toList, 1, none⟩, ⟨"inner".toList, 2, some 0⟩]),
        ("let".toList, [⟨"inner".toList, 0, none⟩])]⟩ = .ok s ∧
      s.rules.get "let".toList = [.inner 0 none] ∧
      s.rules.get "when".toList = RuleTable.builtin.get "when".toList := by
  have hvalid : ∀ entry ∈ [("let".toList, [(⟨"inner".toList, 0, none⟩ : RawRule)]),
      ("my-let".toList, [⟨"block".toList, 1, none⟩, ⟨"inner".toList, 2, some 0⟩])],
      ∀ r ∈ entry.2, ∃ rule, r.Means rule := by
    simp only [List.mem_cons, List.not_mem_nil, or_false, forall_eq_or_imp, forall_eq]
    exact ⟨⟨_, .inner 0 none⟩, ⟨_, .block 1⟩, ⟨_, .inner 2 (some 0)⟩⟩
  obtain ⟨s, hs, -, -, huser, hother⟩ := (check_overrides 5 20 (by decide +kernel)
    (List.Perm.swap _ _ [])).2.2.2.2 (by decide) (by decide) hvalid
  refine ⟨s, hs, ?_, hother _ (by decide +kernel)⟩
  have hrow := RawRule.checkAll_eq_ok_iff.2 (huser _ _ List.mem_cons_self)
  exact (Except.ok.inj hrow).symm

end RawSettings

end StructEdit
