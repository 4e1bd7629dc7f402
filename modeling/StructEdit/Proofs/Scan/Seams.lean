import StructEdit.Proofs.Scan.Shapes

/-!
# Seams between tokens

Where tokens that were read in front of one text come to stand in front of another, there is a seam,
and the tokens stay what they were unless a token bridges it. In code that happens only where the
first characters behind the seam allow it. No token bridges the seam behind a bracket or at the end of
a line, none leads up to a closing bracket, only a mark is drawn into an opening bracket, and a blank
stays apart from what is no gap.
-/
namespace StructEdit.Mode

variable {t t₀ into rest : Text} {ts first covered : List Lexeme} {k : Kind} {x : Lexeme}

theorem Reads.raw_ne_nil {m : Mode} (h : m.Reads t ts) : ∀ x ∈ ts, x.2 ≠ [] := by
  induction ts generalizing m with
  | nil => simp
  | cons y ts ih =>
    intro x hx
    rcases List.mem_cons.1 hx with rfl | hx
    · exact List.length_pos_iff.1 (token?_fits h.1).1
    · exact ih h.2 x hx

/-- The tokens of code `ts` have been read in front of another text, and in front of `t` one of them
goes on across the seam. -/
structure Seam (ts : List Lexeme) (t : Text) (first covered : List Lexeme) (k : Kind)
    (into rest : Text) : Prop where
  bridges : Mode.code.Bridges ts t first covered k into rest
  reads : ∃ t₀, Mode.code.Reads t₀ ts

namespace Seam

variable (h : Seam ts t first covered k into rest)
include h

/-- The place where the bridging token starts. -/
theorem suits : Suits (Place.code.after (spell first)) k (spell covered ++ into) :=
  h.bridges.suits (agrees_place .code _)

/-- Each token that is covered suits the place where it was read. -/
theorem suits_covered {us vs : List Lexeme} (hx : covered = us ++ x :: vs) :
    Suits (Place.code.after (spell (first ++ us))) x.1 x.2 := by
  obtain ⟨t₀, hreads⟩ := h.reads
  rw [h.bridges.tokens, hx, ← List.append_assoc] at hreads
  exact (hreads.suits (agrees_place .code _)).2

theorem spell_covered_ne_nil : spell covered ≠ [] := by
  obtain ⟨t₀, hreads⟩ := h.reads
  obtain ⟨y, ys, hcovered⟩ := List.exists_cons_of_ne_nil h.bridges.covered_ne_nil
  have hy := hreads.raw_ne_nil y (by rw [h.bridges.tokens, hcovered]; simp)
  rw [hcovered, spell_cons]
  exact fun hnil => hy (List.append_eq_nil_iff.1 hnil).1

theorem two_le : 2 ≤ (spell covered ++ into).length := by
  have h₁ := List.length_pos_iff.2 h.spell_covered_ne_nil
  have h₂ := List.length_pos_iff.2 h.bridges.into_ne_nil
  rw [List.length_append]
  omega

theorem ne_lineEnd : k ≠ .lineEnd := by
  intro hk
  have hlen := h.two_le
  rw [h.suits.lineEnd hk] at hlen
  simp at hlen

theorem ne_closing : k ≠ .closing := by
  intro hk
  have hlen := h.two_le
  have hone : ∀ o ∈ Bracket.closers, o.length = 1 := by decide
  rw [hone _ (h.suits.closing hk)] at hlen
  omega

/-- The bridging token lies on one line. -/
theorem not_break : '\n' ∉ spell covered ++ into := by
  have htoken := h.bridges.token
  rw [h.bridges.text, ← List.append_assoc] at htoken
  rcases token?_cases htoken with ⟨hk, -⟩ | ⟨-, hbreak, -⟩
  · exact absurd hk h.ne_lineEnd
  · exact hbreak

/-- No line end is covered. -/
theorem ne_lineEnd_of_mem (hx : x ∈ covered) : x.1 ≠ .lineEnd := by
  intro hk
  obtain ⟨us, vs, rfl⟩ := List.append_of_mem hx
  have hraw := (h.suits_covered rfl).lineEnd hk
  exact h.not_break (by simp [hraw])

/-- No bracket is covered. -/
theorem not_bracket_of_mem (hx : x ∈ covered) : x.1 ≠ .opening ∧ x.1 ≠ .closing := by
  obtain ⟨us, vs, rfl⟩ := List.append_of_mem hx
  have hsuits := h.suits_covered rfl
  have hpart := h.suits.part (spell (us ++ x :: vs)).length (by
    have := List.length_pos_iff.2 h.bridges.into_ne_nil
    rw [List.length_append]
    omega)
  rw [List.take_left, spell_append, Place.fences_append, spell_cons, Place.fences_append,
    ← Place.after_append, ← spell_append, hsuits.fences] at hpart
  have hnone := (List.append_eq_nil_iff.1 (List.append_eq_nil_iff.1 hpart).2).1
  constructor <;>
  · intro hk
    obtain ⟨b, hb⟩ := hsuits.paired (by simp [hk])
    simp [hk, Kind.fences, hb] at hnone

/-! ## Seams in code -/

section Code

variable (hcode : Place.code.after (spell ts) = .code)
include hcode

/-- In front of a seam in code, only tokens of code can be bridged, by one that is neither a comment
nor a string. -/
theorem plain : Place.code.after (spell first) = .code ∧ Mode.code.along first = .code ∧
    k ≠ .comment ∧ k.isString = false := by
  have hlen : (spell covered).length < (spell covered ++ into).length := by
    have := List.length_pos_iff.2 h.bridges.into_ne_nil
    rw [List.length_append]
    omega
  have hplace : (Place.code.after (spell first)).after (spell covered) = .code := by
    rw [← Place.after_append, ← spell_append, ← h.bridges.tokens, hcode]
  have hagrees : (Mode.code.along first).Agrees (Place.code.after (spell first))
      (spell covered ++ t) := h.bridges.reads.agrees (agrees_place .code _)
  have htoken := h.bridges.token
  rw [h.bridges.text, ← List.append_assoc] at hagrees htoken
  exact hagrees.plain htoken (List.length_pos_iff.2 h.spell_covered_ne_nil) hlen
    (by rw [List.take_left, hplace])

theorem shape : Shape k (spell covered ++ into) := by
  have htoken := h.bridges.token
  rw [(h.plain hcode).2.1, h.bridges.text, ← List.append_assoc] at htoken
  exact shape_token? htoken

/-- Each token that is covered has been read in code. -/
theorem shape_covered (hx : x ∈ covered) : Shape x.1 x.2 := by
  obtain ⟨us, vs, rfl⟩ := List.append_of_mem hx
  obtain ⟨t₀, hreads⟩ := h.reads
  obtain ⟨hfirst, -, hcomment, hstring⟩ := h.plain hcode
  have hplace : Place.code.after (spell (first ++ us)) = .code := by
    rw [spell_append, Place.after_append]
    rcases Nat.eq_zero_or_pos (spell us).length with hzero | hpos
    · rw [List.length_eq_zero_iff.1 hzero]
      exact hfirst
    · have hholds := h.suits.holds (spell us).length (by
        have := List.length_pos_iff.2 h.bridges.into_ne_nil
        simp only [spell_append, List.length_append]
        omega) hpos
      rw [spell_append, List.append_assoc, List.take_left] at hholds
      cases hp : (Place.code.after (spell first)).after (spell us) with
      | code => rfl
      | comment => rw [hp] at hholds; exact absurd hholds hcomment
      | string | escape =>
        rw [hp] at hholds
        rw [Kind.Holds, hstring] at hholds
        cases hholds
  rw [h.bridges.tokens, ← List.append_assoc] at hreads
  have hagrees := (hreads.suits (agrees_place .code _)).1
  have hmode : Mode.code.along (first ++ us) = .code := by
    have hagrees' : (Mode.code.along (first ++ us)).Agrees
      (Place.code.after (spell (first ++ us))) _ := hagrees
    rw [hplace] at hagrees'
    exact hagrees'.mode_eq (w := .code)
  have htoken := (reads_append.1 hreads).2.1
  rw [hmode] at htoken
  exact shape_token? htoken

end Code

/-- A bridging token that is neither a comment nor a string does so in code. -/
theorem code_of_plain (hcomment : k ≠ .comment) (hstring : k.isString = false) :
    Place.code.after (spell ts) = .code := by
  have hholds := h.suits.holds (spell covered).length (by
    have := List.length_pos_iff.2 h.bridges.into_ne_nil
    rw [List.length_append]
    omega) (List.length_pos_iff.2 h.spell_covered_ne_nil)
  rw [List.take_left, ← Place.after_append, ← spell_append, ← h.bridges.tokens] at hholds
  cases hp : Place.code.after (spell ts) with
  | code => rfl
  | comment => rw [hp] at hholds; exact absurd hholds hcomment
  | string | escape =>
    rw [hp, Kind.Holds, hstring] at hholds
    cases hholds

/-- An opening bracket that bridges a seam draws a hash in that was a mark. -/
theorem mark_of_opening (hk : k = .opening) :
    ∃ raw ys, covered = (.mark, '#' :: raw) :: ys := by
  have hcode := h.code_of_plain (by simp [hk]) (by simp [hk, Kind.isString])
  have hlong : ∀ o ∈ Bracket.openers, 2 ≤ o.length → o.head? = some '#' := by decide
  have hhead := hlong _ (h.suits.opening hk) h.two_le
  obtain ⟨⟨l, raw⟩, ys, hcovered⟩ := List.exists_cons_of_ne_nil h.bridges.covered_ne_nil
  obtain ⟨t₀, hreads⟩ := h.reads
  have hmem : (l, raw) ∈ covered := by rw [hcovered]; simp
  obtain ⟨c, raw, rfl⟩ := List.exists_cons_of_ne_nil
    (hreads.raw_ne_nil (l, raw) (by rw [h.bridges.tokens]; exact List.mem_append_right _ hmem))
  obtain rfl : c = '#' := by
    rw [hcovered] at hhead
    exact Option.some.inj hhead
  rcases (h.shape_covered hcode hmem).mark rfl with rfl | rfl
  · exact ⟨raw, ys, hcovered⟩
  · exact absurd rfl (h.not_bracket_of_mem hmem).1

/-! ## Seams that nothing bridges -/

theorem last_mem {us : List Lexeme} (hts : ts = us ++ [x]) : x ∈ covered := by
  obtain ⟨ys, y, hcovered⟩ :=
    (List.eq_nil_or_concat covered).resolve_left h.bridges.covered_ne_nil
  have hsplit := h.bridges.tokens
  rw [hts, hcovered, List.concat_eq_append, ← List.append_assoc] at hsplit
  rw [hcovered, List.singleton_inj.1 (List.append_inj' hsplit rfl).2]
  simp

theorem into_eq {c : Char} {s : Text} (ht : t = c :: s) : ∃ into', into = c :: into' := by
  obtain ⟨d, into', rfl⟩ := List.exists_cons_of_ne_nil h.bridges.into_ne_nil
  have htext := h.bridges.text
  rw [ht] at htext
  exact ⟨into', by rw [(List.cons.inj htext).1]⟩

theorem false_of_last {us : List Lexeme} (hts : ts = us ++ [x])
    (hx : x.1 = .opening ∨ x.1 = .closing ∨ x.1 = .lineEnd) : False := by
  have hmem := h.last_mem hts
  obtain ⟨hopening, hclosing⟩ := h.not_bracket_of_mem hmem
  rcases hx with hx | hx | hx
  · exact hopening hx
  · exact hclosing hx
  · exact h.ne_lineEnd_of_mem hmem hx

theorem false_of_newline {s : Text} (ht : t = '\n' :: s) : False := by
  obtain ⟨into', rfl⟩ := h.into_eq ht
  exact h.not_break (by simp)

section Code

variable (hcode : Place.code.after (spell ts) = .code) {c : Char} {s : Text}
include hcode

/-- Gaps join with a blank, and nothing else does. -/
theorem blank_iff {us : List Lexeme} (hts : ts = us ++ [x]) (ht : t = c :: s) :
    x.1 = .blank ↔ Text.isGap c = true := by
  have hmem := h.last_mem hts
  obtain ⟨into', rfl⟩ := h.into_eq ht
  obtain ⟨t₀, hreads⟩ := h.reads
  obtain ⟨d, hd⟩ : ∃ d, x.2.head? = some d := by
    obtain ⟨d, raw, hraw⟩ := List.exists_cons_of_ne_nil
      (hreads.raw_ne_nil x (by rw [hts]; simp))
    exact ⟨d, by rw [hraw]; rfl⟩
  have hdmem : d ∈ spell covered ++ c :: into' :=
    List.mem_append_left _ (List.mem_flatMap.2 ⟨x, hmem, List.mem_of_mem_head? hd⟩)
  have hcmem : c ∈ spell covered ++ c :: into' := by simp
  have hshape := h.shape hcode
  have hold := h.shape_covered hcode hmem
  by_cases hk : k = .blank
  · have hgap := hshape.gap hk
    refine iff_of_true ?_ (hgap c hcmem)
    refine Decidable.byContradiction fun hx => ?_
    have := hold.head hx d hd
    rw [hgap d hdmem] at this
    cases this
  · obtain ⟨-, -, hcomment, hstring⟩ := h.plain hcode
    have hsolid := hshape.solid hk hcomment hstring
    refine iff_of_false (fun hx => ?_) (by simp [hsolid c hcmem])
    have := hold.gap hx d (List.mem_of_mem_head? hd)
    rw [hsolid d hdmem] at this
    cases this

/-- A bracket in code is the end of the token that it stands in. -/
theorem fence {f : Fence} (ht : t = c :: s) (hf : Fence.ofChar? c = some f) :
    into = [c] ∧ k.fences (spell covered ++ [c]) = [f] := by
  obtain ⟨into', rfl⟩ := h.into_eq ht
  have hplace : (Place.code.after (spell first)).after (spell covered) = .code := by
    rw [← Place.after_append, ← spell_append, ← h.bridges.tokens, hcode]
  have hpart := h.suits.part (spell covered).length (by simp)
  rw [List.take_left] at hpart
  have hfences : (Place.code.after (spell first)).fences (spell covered ++ [c]) = [f] := by
    rw [Place.fences_append, hpart, hplace, Place.fences, if_pos rfl, hf]
    rfl
  have hnil : into' = [] := by
    refine Decidable.byContradiction fun hne => ?_
    have hinside := h.suits.part ((spell covered).length + 1) (by
      have := List.length_pos_iff.2 hne
      simp only [List.length_append, List.length_cons]
      omega)
    rw [List.take_append, List.take_of_length_le (Nat.le_succ _), Nat.add_sub_cancel_left] at hinside
    rw [show List.take 1 (c :: into') = [c] from rfl, hfences] at hinside
    cases hinside
  subst hnil
  exact ⟨rfl, by rw [← h.suits.fences, hfences]⟩

theorem false_of_closer (ht : t = c :: s) (hc : c ∈ [')', ']', '\x7d']) : False := by
  have hall : ∀ c ∈ [')', ']', '\x7d'], ∃ b, Fence.ofChar? c = some (.closes b) := by
    intro c hc
    simp only [List.mem_cons, List.not_mem_nil, or_false] at hc
    rcases hc with rfl | rfl | rfl <;> exact ⟨_, rfl⟩
  obtain ⟨b, hb⟩ := hall c hc
  obtain ⟨rfl, hfences⟩ := h.fence hcode ht hb
  have hne := h.ne_closing
  unfold Kind.fences at hfences
  split at hfences
  · cases hraw : Bracket.ofText? (spell covered ++ [c]) <;> simp [hraw] at hfences
  · exact hne rfl
  · cases hfences

/-- In front of an opening bracket, only a mark is bridged. -/
theorem mark_of_opener {o : Text} (ho : o ∈ Bracket.openers) (ht : t = o ++ s) :
    ∃ y ∈ covered, y.1 = .mark := by
  have hmark : k = .opening → ∃ y ∈ covered, y.1 = .mark := by
    intro hk
    obtain ⟨raw, ys, hcovered⟩ := h.mark_of_opening hk
    exact ⟨_, by rw [hcovered]; exact List.mem_cons_self, rfl⟩
  have hall : ∀ o ∈ Bracket.openers, (∃ o', o = '#' :: o') ∨
      ∃ c b, o = [c] ∧ Fence.ofChar? c = some (.opens b) := by
    intro o ho
    simp only [Bracket.openers, List.mem_cons, List.not_mem_nil, or_false] at ho
    rcases ho with rfl | rfl | rfl | rfl | rfl | rfl | rfl
    · exact Or.inr ⟨_, _, rfl, rfl⟩
    · exact Or.inr ⟨_, _, rfl, rfl⟩
    · exact Or.inr ⟨_, _, rfl, rfl⟩
    · exact Or.inl ⟨_, rfl⟩
    · exact Or.inl ⟨_, rfl⟩
    · exact Or.inl ⟨_, rfl⟩
    · exact Or.inl ⟨_, rfl⟩
  rcases hall o ho with ⟨o', rfl⟩ | ⟨c, b, rfl, hb⟩
  · exfalso
    obtain ⟨into', rfl⟩ := h.into_eq ht
    obtain ⟨-, -, hcomment, hstring⟩ := h.plain hcode
    obtain ⟨d, u, hu⟩ := List.exists_cons_of_ne_nil h.spell_covered_ne_nil
    have hhash := (h.shape hcode).hash hcomment hstring
    rw [hu] at hhash
    exact hhash (by simp)
  · obtain ⟨rfl, hfences⟩ := h.fence hcode ht hb
    apply hmark
    unfold Kind.fences at hfences
    split at hfences
    · rfl
    · cases hraw : Bracket.ofText? (spell covered ++ [c]) <;> simp [hraw] at hfences
    · cases hfences

end Code
end Seam

/-! ## Putting text together -/

variable {us : List Lexeme} {y : Lexeme}

structure Stretch (ts : List Lexeme) : Prop where
  reads : ∃ t, Mode.code.Reads t ts
  place : Place.code.after (spell ts) = .code
  along : Mode.code.along ts = .code

theorem Reads.stretch (h : Mode.code.Reads t (ts ++ us))
    (hplace : Place.code.after (spell ts) = .code) : Stretch ts ∧ Mode.code.Reads t us := by
  obtain ⟨hts, hus⟩ := reads_append.1 h
  have hagrees : (Mode.code.along ts).Agrees (Place.code.after (spell ts)) _ :=
    hts.agrees (agrees_place .code _)
  rw [hplace] at hagrees
  have halong : Mode.code.along ts = .code := hagrees.mode_eq (w := .code)
  exact ⟨⟨⟨_, hts⟩, hplace, halong⟩, halong ▸ hus⟩

/-- Code stands on both sides of a bracket. -/
theorem Reads.bracket (h : Mode.code.Reads t (ts ++ x :: us))
    (hx : x.1 = .opening ∨ x.1 = .closing) :
    Stretch ts ∧ Stretch [x] ∧ Mode.code.Reads t us := by
  have hsuits : Suits (Place.code.after (spell ts)) x.1 x.2 :=
    (h.suits (agrees_place .code _)).2
  have hcode : Place.code.after (spell ts) = .code := by
    have hadmits := hsuits.admits
    generalize Place.code.after (spell ts) = p at hadmits
    cases p <;> rcases hx with hx | hx <;> simp_all [Place.admits]
  obtain ⟨hts, hrest⟩ := h.stretch hcode
  have hafter : Place.code.after (spell [x]) = .code := by
    have := hsuits.after
    rw [hcode] at this
    rw [spell_cons, spell_nil, List.append_nil, this]
    rcases hx with hx | hx <;> rw [hx] <;> rfl
  have hrest' : Mode.code.Reads t ([x] ++ us) := hrest
  obtain ⟨hone, hus⟩ := hrest'.stretch hafter
  exact ⟨hts, hone, hus⟩

/-- Two texts that no token bridges are read one after the other. -/
theorem Stretch.append (h : Stretch ts) (hus : Mode.code.Reads t us)
    (hseam : ∀ {first covered k into rest}, Seam ts (spell us ++ t) first covered k into rest →
      False) : Mode.code.Reads t (ts ++ us) := by
  obtain ⟨t₀, hts⟩ := h.reads
  refine reads_append.2 ⟨(hts.append_or _).resolve_right ?_, h.along.symm ▸ hus⟩
  rintro ⟨first, covered, k, into, rest, hbridges⟩
  exact hseam ⟨hbridges, t₀, hts⟩

theorem Reads.shape (h : Mode.code.Reads t (y :: us)) : Shape y.1 y.2 := shape_token? h.1

theorem Reads.lineEnd (h : Mode.code.Reads t (y :: us)) : y.1 = .lineEnd → y.2 = ['\n'] :=
  ((agrees_place .code _).suits h.1).1.lineEnd

/-- Nothing bridges the seam between a token and another when one of them is a space and the other is
none. -/
theorem Seam.false_of_space (h : Seam (ts ++ [x]) t first covered k into rest)
    (hcode : Place.code.after (spell (ts ++ [x])) = .code) {s : Text} (ht : t = y.2 ++ s)
    (hne : y.2 ≠ []) (hshape : Shape y.1 y.2) (hline : y.1 = .lineEnd → y.2 = ['\n'])
    (hspace : x.1.isSpace ≠ y.1.isSpace) : False := by
  obtain ⟨c, raw, hraw⟩ := List.exists_cons_of_ne_nil hne
  have hhead : y.2.head? = some c := by rw [hraw]; rfl
  rw [hraw, List.cons_append] at ht
  have hblank := h.blank_iff hcode rfl ht
  by_cases hx : x.1 = .lineEnd
  · exact h.false_of_last rfl (Or.inr (Or.inr hx))
  by_cases hy : y.1 = .lineEnd
  · rw [hline hy] at hraw
    obtain ⟨rfl, -⟩ := List.cons.inj hraw
    exact h.false_of_newline ht
  have hgap : Text.isGap c = true ↔ y.1 = .blank := by
    refine ⟨fun hc => Decidable.byContradiction fun hk => ?_,
      fun hk => hshape.gap hk c (List.mem_of_mem_head? hhead)⟩
    have := hshape.head hk c hhead
    rw [hc] at this
    cases this
  rw [hgap] at hblank
  refine hspace ?_
  revert hx hy hblank
  cases x.1 <;> cases y.1 <;> decide

end StructEdit.Mode
