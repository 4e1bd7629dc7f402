import StructEdit.Proofs.Scan.Seams

/-!
# The atoms of texts put together

Atoms are the tokens that are neither brackets nor spaces. When texts that start and end in code are
put together, blanks may join at the seams, and that changes no atom. Any other token that comes to
lie across a seam does. If it is an atom itself, it is longer than the one that stood in its place.
If it is an opening bracket, it has drawn a mark in, and then a mark is missing: what starts with a
hash can become a bracket when more text comes behind it, but nothing becomes such a mark.
-/
namespace StructEdit

/-! ## Atoms -/

namespace Kind

/-- Neither a bracket nor a space. -/
def isContent : Kind → Bool
  | .blank | .lineEnd | .opening | .closing => false
  | _ => true

end Kind

/-- The tokens that are neither brackets nor spaces. -/
def atoms (ts : List Lexeme) : List Lexeme := ts.filter fun x => x.1.isContent

@[simp] theorem atoms_append (ts us : List Lexeme) : atoms (ts ++ us) = atoms ts ++ atoms us :=
  List.filter_append ts us

theorem atoms_cons_of_content {x : Lexeme} (h : x.1.isContent = true) (ts : List Lexeme) :
    atoms (x :: ts) = x :: atoms ts := List.filter_cons_of_pos h

theorem atoms_cons_of_not_content {x : Lexeme} (h : x.1.isContent = false) (ts : List Lexeme) :
    atoms (x :: ts) = atoms ts := List.filter_cons_of_neg (by simp [h])

theorem atoms_eq_nil {ts : List Lexeme} (h : ∀ x ∈ ts, x.1.isContent = false) : atoms ts = [] :=
  List.filter_eq_nil_iff.2 fun x hx => by simp [h x hx]

/-! ## Tokens across an offset -/

/-- A token that is no blank starts before the offset and ends behind it. -/
def Crosses (n : Nat) : List Lexeme → Prop
  | [] => False
  | x :: ts => x.1 ≠ .blank ∧ 0 < n ∧ n < x.2.length ∨ x.2.length ≤ n ∧ Crosses (n - x.2.length) ts

theorem not_crosses_zero (ts : List Lexeme) : ¬Crosses 0 ts := by
  induction ts with
  | nil => exact id
  | cons x ts ih =>
    rintro (⟨-, hpos, -⟩ | ⟨-, h⟩)
    · omega
    · rw [Nat.zero_sub] at h
      exact ih h

theorem crosses_append {ts us : List Lexeme} {n : Nat} :
    Crosses ((spell ts).length + n) (ts ++ us) ↔ Crosses n us := by
  induction ts with
  | nil => simp
  | cons x ts ih =>
    have hsub : (spell (x :: ts)).length + n - x.2.length = (spell ts).length + n := by
      rw [spell_cons, List.length_append]
      omega
    rw [List.cons_append, Crosses, hsub, ih, spell_cons, List.length_append]
    constructor
    · rintro (⟨-, -, hlt⟩ | ⟨-, h⟩)
      · omega
      · exact h
    · exact fun h => Or.inr ⟨by omega, h⟩

theorem crosses_iff {ts : List Lexeme} {n : Nat} : Crosses n ts ↔ ∃ us x vs, ts = us ++ x :: vs ∧
    x.1 ≠ .blank ∧ (spell us).length < n ∧ n < (spell us).length + x.2.length := by
  induction ts generalizing n with
  | nil => simp [Crosses]
  | cons y ts ih =>
    rw [Crosses, ih]
    constructor
    · rintro (⟨hk, hpos, hlt⟩ | ⟨hle, us, x, vs, rfl, hk, hlow, hhigh⟩)
      · exact ⟨[], y, ts, rfl, hk, hpos, by simpa using hlt⟩
      · refine ⟨y :: us, x, vs, rfl, hk, ?_, ?_⟩ <;>
        · rw [spell_cons, List.length_append]
          omega
    · rintro ⟨us, x, vs, hsplit, hk, hlow, hhigh⟩
      cases us with
      | nil =>
        obtain ⟨rfl, rfl⟩ := List.cons.inj hsplit
        exact Or.inl ⟨hk, hlow, by simpa using hhigh⟩
      | cons z us =>
        obtain ⟨rfl, rfl⟩ := List.cons.inj hsplit
        rw [spell_cons, List.length_append] at hlow hhigh
        exact Or.inr ⟨by omega, us, x, vs, rfl, hk, by omega, by omega⟩

/-! ## Marks -/

/-- The number of hashes in code that a mark starts with. -/
def Place.hashes (p : Place) : Text → Nat
  | [] => 0
  | c :: s =>
    (if p = .code ∧ c = '#' ∧ (Mode.code.token? (c :: s)).map Prod.fst = some .mark then 1 else 0) +
      (p.step c).hashes s

/-- The number of marks that start with a hash. -/
def hashMarks (ts : List Lexeme) : Nat := ts.countP fun x => x.1 == .mark && x.2.head? == some '#'

@[simp] theorem hashMarks_append (ts us : List Lexeme) :
    hashMarks (ts ++ us) = hashMarks ts + hashMarks us := List.countP_append

theorem hashMarks_cons (x : Lexeme) (ts : List Lexeme) :
    hashMarks (x :: ts) = (if x.1 = .mark ∧ x.2.head? = some '#' then 1 else 0) + hashMarks ts := by
  rw [hashMarks, List.countP_cons, Nat.add_comm]
  simp [hashMarks]

theorem hashMarks_atoms (ts : List Lexeme) : hashMarks (atoms ts) = hashMarks ts := by
  rw [hashMarks, atoms, List.countP_filter]
  refine List.countP_congr fun x _ => ?_
  cases hx : x.1 <;> simp [Kind.isContent]

namespace Place

theorem hashes_append_le (p : Place) (s t : Text) : (p.after s).hashes t ≤ p.hashes (s ++ t) := by
  induction s generalizing p with
  | nil => exact Nat.le_refl _
  | cons c s ih => exact Nat.le_trans (ih (p.step c)) (Nat.le_add_left _ _)

theorem hashes_of_not_mem {s : Text} (h : '#' ∉ s) (p : Place) : p.hashes s = 0 := by
  induction s generalizing p with
  | nil => rfl
  | cons c s ih =>
    have hc : c ≠ '#' := fun hc => h (hc ▸ List.mem_cons_self)
    rw [hashes, if_neg fun hif => hc hif.2.1, ih fun hm => h (List.mem_cons_of_mem c hm)]

/-- Where no hash stands in code. -/
theorem hashes_append_of_quiet {p : Place} {s : Text}
    (h : ∀ n < s.length, p.after (s.take n) = .code → '#' ∉ s) (t : Text) :
    p.hashes (s ++ t) = (p.after s).hashes t := by
  induction s generalizing p with
  | nil => rfl
  | cons c s ih =>
    rw [List.cons_append, hashes, if_neg, Nat.zero_add]
    · refine ih fun n hn hcode hm => ?_
      exact h (n + 1) (Nat.succ_lt_succ hn) hcode (List.mem_cons_of_mem c hm)
    · rintro ⟨hcode, rfl, -⟩
      exact h 0 (Nat.succ_pos _) hcode List.mem_cons_self

end Place

namespace Mode

variable {m : Mode} {p : Place} {t raw : Text} {k : Kind} {ts : List Lexeme}

theorem Agrees.hashes (h : m.Agrees p (raw ++ t))
    (htoken : m.token? (raw ++ t) = some (k, raw.length)) :
    p.hashes (raw ++ t) = (if k = .mark ∧ raw.head? = some '#' then 1 else 0) +
      (p.after raw).hashes t := by
  obtain ⟨c, raw, rfl⟩ := List.exists_cons_of_ne_nil (List.length_pos_iff.1 (token?_fits htoken).1)
  have htail : (p.step c).hashes (raw ++ t) = ((p.step c).after raw).hashes t := by
    refine Place.hashes_append_of_quiet (fun n hn hcode => ?_) t
    obtain ⟨-, rfl, hcomment, hstring⟩ :=
      h.plain htoken (Nat.succ_pos n) (Nat.succ_lt_succ hn) (by rw [List.take_succ_cons]; exact hcode)
    exact (shape_token? htoken).hash hcomment hstring
  rw [List.cons_append, Place.hashes, htail]
  congr 1
  have hiff : (p = .code ∧ c = '#' ∧
      (Mode.code.token? (c :: (raw ++ t))).map Prod.fst = some .mark) ↔
      k = .mark ∧ (c :: raw).head? = some '#' := by
    constructor
    · rintro ⟨rfl, rfl, hkind⟩
      obtain rfl : m = .code := h.mode_eq (w := .code)
      rw [← List.cons_append, htoken] at hkind
      exact ⟨Option.some.inj hkind, rfl⟩
    · rintro ⟨rfl, hc⟩
      have hp : p = .code := by
        have hadmits := (h.suits htoken).1.admits
        revert hadmits
        cases p <;> simp [Place.admits]
      subst hp
      obtain rfl : m = .code := h.mode_eq (w := .code)
      rw [← List.cons_append, htoken]
      exact ⟨rfl, Option.some.inj hc, rfl⟩
  simp only [hiff]

theorem Reads.hashes (h : m.Reads t ts) (ha : m.Agrees p (spell ts ++ t)) :
    p.hashes (spell ts ++ t) = hashMarks ts + (p.after (spell ts)).hashes t := by
  induction ts generalizing m p with
  | nil => exact (Nat.zero_add _).symm
  | cons x ts ih =>
    rw [spell_cons, List.append_assoc] at ha ⊢
    obtain ⟨hsuits, hrest⟩ := ha.suits h.1
    have hafter := hsuits.after
    rw [ha.hashes h.1, hafter, ih h.2 hrest, hashMarks_cons, Place.after_append, hafter,
      Nat.add_assoc]

namespace Seam

variable {S T first covered : List Lexeme} {into rest : Text} {x : Lexeme}

variable (h : Seam S t first covered k into rest)
include h

/-- What a token that is no blank covers first is an atom, and so is the token itself, or it is an
opening bracket. -/
theorem isContent (hk : k ≠ .blank) {xs : List Lexeme} (hcovered : covered = x :: xs) :
    x.1.isContent = true ∧ (k = .opening ∨ k.isContent = true) := by
  have hmem : x ∈ covered := by rw [hcovered]; exact List.mem_cons_self
  have hblank : x.1 ≠ .blank := by
    intro hx
    have hadmits := (h.suits_covered (show covered = [] ++ x :: xs from hcovered)).admits
    rw [List.append_nil, hx] at hadmits
    have hplace : Place.code.after (spell first) = .code := by
      revert hadmits
      cases Place.code.after (spell first) <;> simp [Place.admits]
    have hagrees : (Mode.code.along first).Agrees (Place.code.after (spell first)) _ :=
      h.bridges.reads.agrees (agrees_place .code _)
    rw [hplace] at hagrees
    have hmode : Mode.code.along first = .code := hagrees.mode_eq (w := .code)
    have hnew := h.bridges.token
    rw [hmode, h.bridges.text, ← List.append_assoc] at hnew
    obtain ⟨t₀, hreads⟩ := h.reads
    rw [h.bridges.tokens, hcovered] at hreads
    have hold := (reads_append.1 hreads).2.1
    rw [hmode] at hold
    obtain ⟨c, raw, hraw⟩ := List.exists_cons_of_ne_nil (hreads.raw_ne_nil x (by simp))
    have hgap := (shape_token? hold).gap hx c (by rw [hraw]; exact List.mem_cons_self)
    have hsolid := (shape_token? hnew).head hk c (by rw [hcovered, spell_cons, hraw]; rfl)
    rw [hgap] at hsolid
    cases hsolid
  have hline := h.ne_lineEnd_of_mem hmem
  obtain ⟨hopening, hclosing⟩ := h.not_bracket_of_mem hmem
  have hline' := h.ne_lineEnd
  have hclosing' := h.ne_closing
  constructor
  · revert hblank hline hopening hclosing
    cases x.1 <;> decide
  · revert hk hline' hclosing'
    cases k <;> decide

/-- Only blanks are covered by a blank. -/
theorem blank_of_mem (hk : k = .blank) (hx : x ∈ covered) : x.1 = .blank := by
  have hcode := h.code_of_plain (by simp [hk]) (by simp [hk, Kind.isString])
  obtain ⟨t₀, hreads⟩ := h.reads
  obtain ⟨c, raw, hraw⟩ := List.exists_cons_of_ne_nil
    (hreads.raw_ne_nil x (by rw [h.bridges.tokens]; exact List.mem_append_right _ hx))
  refine Decidable.byContradiction fun hne => ?_
  have hsolid := (h.shape_covered hcode hx).head hne c (by rw [hraw]; rfl)
  have hgap := (h.shape hcode).gap hk c (List.mem_append_left _
    (List.mem_flatMap.2 ⟨x, hx, by rw [hraw]; exact List.mem_cons_self⟩))
  rw [hgap] at hsolid
  cases hsolid

/-- The token starts with no hash that was not in a mark before. -/
theorem hashMarks_covered :
    (if k = .mark ∧ (spell covered ++ into).head? = some '#' then 1 else 0) +
      (if k = .opening then 1 else 0) ≤ hashMarks covered := by
  by_cases hopening : k = .opening
  · obtain ⟨raw, ys, hcovered⟩ := h.mark_of_opening hopening
    rw [hcovered, hashMarks_cons, hopening]
    simp
  rw [if_neg hopening, Nat.add_zero]
  split
  · rename_i hif
    obtain ⟨hmark, hhash⟩ := hif
    have hcode := h.code_of_plain (by simp [hmark]) (by simp [hmark, Kind.isString])
    obtain ⟨x, xs, hcovered⟩ := List.exists_cons_of_ne_nil h.bridges.covered_ne_nil
    have hmem : x ∈ covered := by rw [hcovered]; exact List.mem_cons_self
    obtain ⟨t₀, hreads⟩ := h.reads
    obtain ⟨c, raw, hraw⟩ := List.exists_cons_of_ne_nil (hreads.raw_ne_nil x (by
      rw [h.bridges.tokens]; exact List.mem_append_right _ hmem))
    have hhead : x.2.head? = some '#' := by
      rw [hcovered, spell_cons, hraw] at hhash
      rw [hraw]
      exact hhash
    have hx := ((h.shape_covered hcode hmem).mark hhead).resolve_right
      (h.not_bracket_of_mem hmem).1
    rw [hcovered, hashMarks_cons, if_pos ⟨hx, hhead⟩]
    exact Nat.le_add_right _ _
  · exact Nat.zero_le _

end Seam

/-! ## Two texts -/

section Join

variable {S T first covered : List Lexeme} {into rest : Text}

/-- The tokens of two texts that are put together, when one of them bridges the seam. -/
theorem Bridges.lex (h : m.Bridges S t first covered k into rest) :
    m.lex (spell S ++ t) = first ++ (k, spell covered ++ into) ::
      ((m.along first).after k).lex rest := by
  have htoken := h.token
  rw [h.text, ← List.append_assoc] at htoken
  have hreads := h.reads.lex
  rw [h.text, ← List.append_assoc (spell covered), lex_append htoken] at hreads
  rw [h.tokens, h.text, spell_append, List.append_assoc, ← List.append_assoc (spell covered)]
  exact hreads

theorem Bridges.crosses_iff (h : m.Bridges S t first covered k into rest) (hne : spell covered ≠ []) :
    Crosses (spell S).length (m.lex (spell S ++ t)) ↔ k ≠ .blank := by
  have hpos := List.length_pos_iff.2 hne
  have hinto := List.length_pos_iff.2 h.into_ne_nil
  rw [h.lex, h.tokens, spell_append, List.length_append, crosses_append, Crosses,
    List.length_append]
  constructor
  · rintro (⟨hk, -⟩ | ⟨hle, -⟩)
    · exact hk
    · omega
  · exact fun hk => Or.inl ⟨hk, hpos, by omega⟩

/-- A blank in front of another takes it in. -/
theorem Seam.exists_blank (h : Seam S (spell T) first covered k into rest) (hk : k = .blank)
    (hT : Mode.code.Reads [] T) :
    ∃ us, T = (.blank, into) :: us ∧
      Mode.code.lex (spell S ++ spell T) = first ++ (.blank, spell covered ++ into) :: us := by
  subst hk
  have hcode := h.code_of_plain (by simp) rfl
  obtain ⟨-, hmode, -⟩ := h.plain hcode
  have hgap := (h.shape hcode).gap rfl
  obtain ⟨c, into', hinto⟩ := List.exists_cons_of_ne_nil h.bridges.into_ne_nil
  have hc : Text.isGap c = true := hgap c (by rw [hinto]; simp)
  have htext := h.bridges.text
  obtain ⟨x, us, rfl⟩ := List.exists_cons_of_ne_nil (show T ≠ [] by
    rintro rfl
    rw [hinto] at htext
    simp at htext)
  obtain ⟨l, raw⟩ := x
  have hshort := hT.1
  have hlong := h.bridges.token
  obtain ⟨d, covered', hcovered⟩ := List.exists_cons_of_ne_nil h.spell_covered_ne_nil
  have hd : Text.isGap d = true := hgap d (by rw [hcovered]; simp)
  rw [List.append_nil, ← spell_cons (l, raw) us, htext, hinto, List.cons_append,
    token?_gap hc, ← List.cons_append, ← hinto] at hshort
  rw [hmode, htext, hcovered, List.cons_append, token?_gap hd, ← List.cons_append, ← hcovered,
    List.takeWhile_append_of_pos fun c hc => hgap c (List.mem_append_left _ hc),
    List.length_append, List.length_append] at hlong
  obtain ⟨rfl, hraw⟩ := Prod.mk.inj (Option.some.inj hshort)
  have hlen := (Prod.mk.inj (Option.some.inj hlong)).2
  have hcat : raw ++ spell us = into ++ rest := htext
  obtain ⟨rfl, rfl⟩ := List.append_inj hcat (by omega)
  refine ⟨us, rfl, ?_⟩
  have hlex := hT.2.lex
  rw [List.append_nil, lex_nil, List.append_nil] at hlex
  rw [h.bridges.lex, hmode]
  exact congrArg (fun vs => first ++ (Kind.blank, spell covered ++ raw) :: vs) hlex

/-- Two texts, of which the first starts and ends in code, and the tokens that they have when they are
read apart. Behind a comment at the end of the first, there is no hash. -/
structure Joins (S T : List Lexeme) : Prop where
  first : ∃ t, Mode.code.Reads t S
  along : Mode.code.along S = .code
  second : Mode.code.Reads [] T
  place : Place.code.after (spell S) = .code ∨ '#' ∉ spell T

variable (h : Joins S T)
include h

theorem Joins.cases : Mode.code.lex (spell S ++ spell T) = S ++ T ∨
    ∃ first covered k into rest, Seam S (spell T) first covered k into rest := by
  obtain ⟨t, hfirst⟩ := h.first
  refine (hfirst.append_or (spell T)).imp (fun hreads => ?_) ?_
  · have hT := h.second.lex
    rw [List.append_nil, lex_nil, List.append_nil] at hT
    rw [hreads.lex, h.along, hT]
  · rintro ⟨first, covered, k, into, rest, hb⟩
    exact ⟨first, covered, k, into, rest, hb, t, hfirst⟩

/-- Without a token across the seam, all atoms stay, and what crosses another offset still does. -/
theorem Joins.of_not_crosses
    (hcross : ¬Crosses (spell S).length (Mode.code.lex (spell S ++ spell T))) :
    atoms (Mode.code.lex (spell S ++ spell T)) = atoms S ++ atoms T ∧
      ∀ n, Crosses ((spell S).length + n) (Mode.code.lex (spell S ++ spell T)) ↔ Crosses n T := by
  rcases h.cases with heq | ⟨first, covered, k, into, rest, hs⟩
  · rw [heq]
    exact ⟨atoms_append S T, fun n => crosses_append⟩
  · have hk : k = .blank := Decidable.byContradiction fun hk =>
      hcross ((hs.bridges.crosses_iff hs.spell_covered_ne_nil).2 hk)
    obtain ⟨us, rfl, hlex⟩ := hs.exists_blank hk h.second
    have hcovered : atoms covered = [] := by
      refine atoms_eq_nil fun x hx => ?_
      rw [hs.blank_of_mem hk hx]
      rfl
    rw [hlex, hs.bridges.tokens]
    refine ⟨?_, fun n => ?_⟩
    · rw [atoms_append, atoms_append, hcovered, atoms_cons_of_not_content rfl,
        atoms_cons_of_not_content rfl, List.append_nil]
    · rw [spell_append, List.length_append, Nat.add_assoc, crosses_append, Crosses, Crosses,
        List.length_append]
      have hsub : (spell covered).length + n - ((spell covered).length + into.length) =
          n - into.length := by omega
      simp only [ne_eq, not_true_eq_false, false_and, false_or, hsub]
      exact and_congr_left fun _ => by omega

/-- The marks behind the bridging token are among those of the second text. -/
theorem Joins.hashMarks_rest (hs : Seam S (spell T) first covered k into rest) :
    hashMarks (((Mode.code.along first).after k).lex rest) ≤ hashMarks T := by
  have htoken := hs.bridges.token
  have hagrees : (Mode.code.along first).Agrees (Place.code.after (spell first)) _ :=
    hs.bridges.reads.agrees (agrees_place .code _)
  rw [hs.bridges.text, ← List.append_assoc] at htoken hagrees
  obtain ⟨hsuits, hafter⟩ := hagrees.suits htoken
  obtain ⟨hreads, hspell⟩ := ((Mode.code.along first).after k).reads_lex rest
  have hnew := hreads.hashes (by rwa [hspell, List.append_nil])
  have hold := h.second.hashes (agrees_place .code _)
  rw [hspell, List.append_nil] at hnew
  rw [List.append_nil] at hold
  have hplace : (Place.code.after (spell first)).pass k =
      (Place.code.after (spell S)).after into := by
    rw [← hsuits.after, hs.bridges.tokens, spell_append, Place.after_append, Place.after_append]
  have hle : hashMarks (((Mode.code.along first).after k).lex rest) ≤
      ((Place.code.after (spell S)).after into).hashes rest := by
    rw [← hplace, hnew]
    exact Nat.le_add_right _ _
  refine Nat.le_trans hle ?_
  rcases h.place with hcode | hnone
  · have := Place.hashes_append_le Place.code into rest
    rw [← hs.bridges.text] at this
    rw [hcode]
    exact Nat.le_trans this (Nat.le_of_eq hold)
  · rw [Place.hashes_of_not_mem fun hm => hnone (by
      rw [hs.bridges.text]
      exact List.mem_append_right _ hm)]
    exact Nat.zero_le _

/-- A token that bridges the seam adds no mark, and an opening bracket takes one away. -/
theorem Joins.hashMarks_bridged (hs : Seam S (spell T) first covered k into rest) :
    hashMarks (Mode.code.lex (spell S ++ spell T)) + (if k = .opening then 1 else 0) ≤
      hashMarks S + hashMarks T := by
  have hrest := h.hashMarks_rest hs
  have hmark := hs.hashMarks_covered
  have hcons := hashMarks_cons (k, spell covered ++ into)
    (((Mode.code.along first).after k).lex rest)
  have hS : hashMarks S = hashMarks first + hashMarks covered := by
    rw [hs.bridges.tokens, hashMarks_append]
  rw [hs.bridges.lex, hashMarks_append, hcons]
  dsimp only
  omega

/-- With a token across the seam, there are other atoms than before, whatever follows. -/
theorem Joins.of_crosses
    (hcross : Crosses (spell S).length (Mode.code.lex (spell S ++ spell T))) :
    hashMarks (Mode.code.lex (spell S ++ spell T)) ≤ hashMarks S + hashMarks T ∧
      ∀ us, hashMarks T ≤ hashMarks us →
        atoms (Mode.code.lex (spell S ++ spell T)) ≠ atoms S ++ atoms us := by
  rcases h.cases with heq | ⟨first, covered, k, into, rest, hs⟩
  · rw [heq, ← Nat.add_zero (spell S).length, crosses_append] at hcross
    exact absurd hcross (not_crosses_zero T)
  · have hk := (hs.bridges.crosses_iff hs.spell_covered_ne_nil).1 hcross
    have hmarks := h.hashMarks_bridged hs
    refine ⟨Nat.le_trans (Nat.le_add_right _ _) hmarks, fun us hus heq => ?_⟩
    obtain ⟨x, xs, hcovered⟩ := List.exists_cons_of_ne_nil hs.bridges.covered_ne_nil
    obtain ⟨hx, hopening | hcontent⟩ := hs.isContent hk hcovered
    · have hcount := congrArg hashMarks heq
      rw [hashMarks_append, hashMarks_atoms, hashMarks_atoms, hashMarks_atoms] at hcount
      rw [if_pos hopening] at hmarks
      omega
    · rw [hs.bridges.lex, hs.bridges.tokens, hcovered, atoms_append, atoms_append,
        atoms_cons_of_content hcontent, atoms_cons_of_content hx, List.append_assoc] at heq
      have hraw := congrArg Prod.snd (List.cons.inj (List.append_cancel_left heq)).1
      have hlen := congrArg List.length hraw
      have hinto := List.length_pos_iff.2 hs.bridges.into_ne_nil
      simp only [spell_cons, List.length_append] at hlen
      omega

end Join

/-! ## Several texts -/

/-- Where texts that are put together meet. -/
def seams : List (List Lexeme) → List Nat
  | [] | [_] => []
  | S :: T :: segments =>
    (spell S).length :: (seams (T :: segments)).map ((spell S).length + ·)

/-- Texts that start in code, and end in it, too. Behind a comment at the end of one, there is no
hash. -/
inductive Row : List (List Lexeme) → Prop
  | last {S : List Lexeme} : Mode.code.Reads [] S → Row [S]
  | cons {S : List Lexeme} {segments : List (List Lexeme)} :
      (∃ t, Mode.code.Reads t S) → Mode.code.along S = .code →
      Place.code.after (spell S) = .code ∨ '#' ∉ spell segments.flatten →
      Row segments → Row (S :: segments)

/-- All atoms stay if and only if no token but blanks comes to lie across a seam. -/
theorem Row.atoms_iff {segments : List (List Lexeme)} (h : Row segments) :
    hashMarks (Mode.code.lex (spell segments.flatten)) ≤ hashMarks segments.flatten ∧
      (atoms (Mode.code.lex (spell segments.flatten)) = atoms segments.flatten ↔
        ∀ n ∈ seams segments, ¬Crosses n (Mode.code.lex (spell segments.flatten))) := by
  induction h with
  | @last S hS =>
    have hlex := hS.lex
    rw [List.append_nil, lex_nil, List.append_nil] at hlex
    simp [seams, hlex]
  | @cons S segments hS halong hplace hrow ih =>
    obtain ⟨hmarks, hiff⟩ := ih
    obtain ⟨hreads, hspell⟩ := Mode.code.reads_lex (spell segments.flatten)
    have hjoins : Joins S (Mode.code.lex (spell segments.flatten)) :=
      ⟨hS, halong, hreads, by rwa [hspell]⟩
    have hcut : seams (S :: segments) =
        (spell S).length :: (seams segments).map ((spell S).length + ·) := by
      cases hrow <;> rfl
    rw [List.flatten_cons, spell_append, hcut, atoms_append, hashMarks_append]
    by_cases hcross : Crosses (spell S).length
        (Mode.code.lex (spell S ++ spell segments.flatten))
    · have hof := hjoins.of_crosses (by rwa [hspell])
      rw [hspell] at hof
      refine ⟨Nat.le_trans hof.1 (Nat.add_le_add_left hmarks _),
        iff_of_false (hof.2 _ hmarks) fun hall => ?_⟩
      exact hall _ List.mem_cons_self hcross
    · have hof := hjoins.of_not_crosses (by rwa [hspell])
      rw [hspell] at hof
      obtain ⟨hatoms, hcrosses⟩ := hof
      constructor
      · rw [← hashMarks_atoms, hatoms, hashMarks_append, hashMarks_atoms, hashMarks_atoms]
        exact Nat.add_le_add_left hmarks _
      · rw [hatoms, List.append_right_inj, hiff]
        simp [hcross, hcrosses]

end Mode
end StructEdit
