import StructEdit.Proofs.Balance.Tokens
import StructEdit.Proofs.Buffer.Settled
import StructEdit.Proofs.Cursor.Motions

/-!
# Balanced buffers

A buffer is balanced when its opening and closing tokens nest, each pair of one family, and
its last line does not end in a string. For a settled buffer this can be read off the text:
the tokens of each line are steps of reading, from the place that the line starts in to the
place that the next one starts in.
-/
namespace StructEdit
open Pattern Scan

/-! ## Every token suits its place -/

theorem plain_of_reads {p : Pattern} {s : Text} (h : p.Reads s)
    (hp : ∀ c ∈ delimiters, p.asks c = false) : ∀ c ∈ s, c ∉ delimiters := by
  intro c hc hd
  have hasks := h.asks_of_mem hc
  rw [hp c hd] at hasks
  simp at hasks

/-- What is junk, no terminal before the last one reads. -/
theorem eq_zero_of_junk {s : Text} {n : Nat} (h : codeGrammar.longest? s = some (.junk, n)) :
    ∀ t ∈ readable, ∀ m, t.pattern.matchLength? s = some m → m = 0 := by
  have hbest : Grammar.better s (readable.longest? s) (⟨.one .dot, .junk⟩ : Terminal) =
      some (.junk, n) := by
    rw [codeGrammar_eq, Grammar.longest?, List.foldl_append] at h
    exact h
  cases hr : readable.longest? s with
  | none => exact Grammar.eq_zero_of_longest?_none hr
  | some r =>
    exfalso
    obtain ⟨k, l⟩ := r
    have hpos := (readable.fits_longest? s k l hr).1
    obtain ⟨u, hu, rfl, -⟩ := Grammar.exists_of_longest? hr
    have hkind : u.kind ≠ .junk := by
      have : ∀ v ∈ readable, v.kind ≠ .junk := by decide +kernel
      exact this u hu
    rw [hr] at hbest
    unfold Grammar.better at hbest
    split at hbest
    · exact hkind (Prod.mk.inj (Option.some.inj hbest)).1
    · rename_i j hj
      obtain rfl := eq_one_of_matchLength? hj
      simp only [Option.map_some, Option.getD_some] at hbest
      rw [if_neg (by omega)] at hbest
      exact hkind (Prod.mk.inj (Option.some.inj hbest)).1

/-- Nothing in code is junk but the at sign. -/
theorem junk_of_code {c : Char} {s : Text} {n : Nat}
    (h : codeGrammar.longest? (c :: s) = some (.junk, n)) : c = '@' := by
  refine Decidable.byContradiction fun hc => ?_
  obtain ⟨t, ht, m, hpos, hm⟩ := exists_offer readable_subset (exists_matchLength?_single hc) s
  have := eq_zero_of_junk h t ht m hm
  omega

theorem length_of_junk_code {s : Text} {n : Nat}
    (h : codeGrammar.longest? s = some (.junk, n)) : n = 1 := by
  have hdot : ∀ t ∈ codeGrammar, t.kind = .junk → t.pattern = .one .dot := by decide +kernel
  obtain ⟨t, ht, hk, hm⟩ := Grammar.exists_of_longest? h
  rw [hdot t ht hk] at hm
  exact eq_one_of_matchLength? hm

theorem longest?_of_code {s : Text} {r : Kind × Nat} (h : Mode.code.read? s = some r) :
    codeGrammar.longest? s = some r := by
  unfold Mode.read? at h
  split at h
  · rename_i hr
    exact hr.trans h
  · rename_i hnone
    split at h
    · simp at h
    · rename_i hne
      obtain ⟨r', hr'⟩ := exists_longest?_code (s := s) (by simpa using hne)
      cases hnone.symm.trans hr'

theorem suits_code {raw rest : Text} {k : Kind} (hn : '\n' ∉ raw ++ rest)
    (h : Mode.code.read? (raw ++ rest) = some (k, raw.length)) :
    Suits .code k raw ∧ (k = .comment → rest = []) := by
  have hraw : '\n' ∉ raw := fun hm => hn (List.mem_append_left _ hm)
  have hr := longest?_of_code h
  obtain ⟨t, ht, hk, hm⟩ := Grammar.exists_of_longest? hr
  have hreads := reads_of_matchLength? hm
  rw [List.take_left] at hreads
  have hplain : (delimiters.all fun c => !t.pattern.asks c) = true → t.kind.isPlain = true →
      Suits .code k raw ∧ (k = .comment → rest = []) := by
    intro hall hkind
    have hasks : ∀ c ∈ delimiters, t.pattern.asks c = false := by simpa using hall
    refine ⟨hk ▸ suits_plain hkind (plain_of_reads hreads hasks), fun hc => ?_⟩
    rw [hk, hc] at hkind
    simp [Kind.isPlain] at hkind
  simp only [codeGrammar, List.mem_cons, List.not_mem_nil, or_false] at ht
  rcases ht with rfl | rfl | rfl | rfl | rfl | rfl | rfl | rfl | rfl | rfl | rfl | rfl | rfl
  · exact hplain (by decide +kernel) rfl
  · subst hk
    obtain ⟨u, s, rfl, hu, -⟩ := reads_seq.1 hreads
    obtain rfl := reads_char.1 hu
    have hs : '\n' ∉ s ++ rest := fun hm' => hn (List.mem_cons_of_mem _ hm')
    refine ⟨suits_comment fun hm' => hs (List.mem_append_left _ hm'), fun _ => ?_⟩
    have hlen : s.length + 1 = (s ++ rest).length + 1 :=
      Option.some.inj (hm.symm.trans (matchLength?_comment hs))
    rw [List.length_append] at hlen
    exact List.length_eq_zero_iff.1 (by omega)
  · subst hk
    exact ⟨suits_opening hreads, by simp⟩
  · subst hk
    exact ⟨suits_closing hreads, by simp⟩
  · exact hplain (by decide +kernel) rfl
  · exact hplain (by decide +kernel) rfl
  · exact hplain (by decide +kernel) rfl
  · exact hplain (by decide +kernel) rfl
  · exact hplain (by decide +kernel) rfl
  · exact hplain (by decide +kernel) rfl
  · subst hk
    obtain ⟨u, v, rfl, hu, hv⟩ := reads_seq.1 hreads
    obtain rfl := reads_char.1 hu
    obtain ⟨s, w, rfl, hs, hw⟩ := reads_seq.1 hv
    obtain rfl := reads_char.1 hw
    have hsuits : Suits .code .string ('"' :: (s ++ ['"'])) :=
      suits_quoted (enclosed_of_reads hs) (Or.inr ⟨rfl, rfl⟩)
    exact ⟨hsuits, by simp⟩
  · subst hk
    obtain ⟨u, s, rfl, hu, hs⟩ := reads_seq.1 hreads
    obtain rfl := reads_char.1 hu
    have := suits_quoted (enclosed_of_reads hs) (Or.inl ⟨rfl, rfl⟩)
    rw [List.append_nil] at this
    exact ⟨this, by simp⟩
  · subst hk
    refine ⟨suits_plain rfl fun c hc => ?_, by simp⟩
    cases hreads with
    | one _ =>
      obtain rfl := List.mem_singleton.1 hc
      rw [junk_of_code hr]
      decide

/-- In a string, all is read but a backslash with nothing behind it. -/
theorem junk_of_string {raw rest : Text} (hne : raw ≠ []) (hn : '\n' ∉ raw ++ rest)
    (h : Mode.string.read? (raw ++ rest) = some (.junk, raw.length)) :
    raw = ['\\'] ∧ rest = [] := by
  unfold Mode.read? at h
  split at h
  · rename_i r hr
    obtain rfl := Option.some.inj h
    obtain ⟨t, ht, hk, -⟩ := Grammar.exists_of_longest? hr
    simp only [Mode.grammar, stringGrammar, List.mem_cons, List.not_mem_nil, or_false] at ht
    rcases ht with rfl | rfl <;> simp at hk
  · rename_i hnone
    split at h
    · simp at h
    · obtain ⟨-, hlen⟩ := Prod.mk.inj (Option.some.inj h)
      obtain rfl : rest = [] := by
        rw [List.length_append] at hlen
        exact List.length_eq_zero_iff.1 (by omega)
      rw [List.append_nil] at hnone hn
      exact ⟨((longest?_string_eq_none hn).1 hnone).resolve_left hne, rfl⟩

theorem suits_string {raw rest : Text} {k : Kind} (hne : raw ≠ []) (hn : '\n' ∉ raw ++ rest)
    (h : Mode.string.read? (raw ++ rest) = some (k, raw.length)) :
    Suits .string k raw ∧ (k = .junk → rest = []) := by
  by_cases hjunk : k = .junk
  · subst hjunk
    obtain ⟨rfl, rfl⟩ := junk_of_string hne hn h
    refine ⟨⟨rfl, rfl, rfl, by decide, fun n hn hpos => ?_, by simp, by simp, by simp, by simp⟩,
      fun _ => rfl⟩
    exact absurd hpos (by simp at hn; omega)
  unfold Mode.read? at h
  split at h
  · rename_i r hr
    obtain rfl := Option.some.inj h
    obtain ⟨t, ht, hk, hm⟩ := Grammar.exists_of_longest? hr
    have hreads := reads_of_matchLength? hm
    rw [List.take_left] at hreads
    simp only [Mode.grammar, stringGrammar, List.mem_cons, List.not_mem_nil, or_false] at ht
    rcases ht with rfl | rfl
    · subst hk
      obtain ⟨s, w, rfl, hs, hw⟩ := reads_seq.1 hreads
      obtain rfl := reads_char.1 hw
      exact ⟨suits_inside (enclosed_of_reads hs) (Or.inr ⟨rfl, rfl⟩), by simp⟩
    · subst hk
      have := suits_inside (enclosed_of_reads hreads) (Or.inl ⟨rfl, rfl⟩)
      rw [List.append_nil] at this
      exact ⟨this, by simp⟩
  · split at h
    · simp at h
    · exact absurd (Prod.mk.inj (Option.some.inj h)).1.symm hjunk

/-- Whatever the text is and in whatever mode it is read, a closing token is a closing bracket. -/
theorem mem_closers_of_read {mode : Mode} {raw rest : Text}
    (h : mode.read? (raw ++ rest) = some (.closing, raw.length)) : raw ∈ Bracket.closers := by
  cases mode with
  | code =>
    obtain ⟨t, ht, hk, hm⟩ := Grammar.exists_of_longest? (longest?_of_code h)
    have hreads := reads_of_matchLength? hm
    rw [List.take_left] at hreads
    simp only [codeGrammar, List.mem_cons, List.not_mem_nil, or_false] at ht
    rcases ht with rfl | rfl | rfl | rfl | rfl | rfl | rfl | rfl | rfl | rfl | rfl | rfl | rfl <;>
      simp only [reduceCtorEq] at hk
    exact (suits_closing hreads).closing rfl
  | string =>
    unfold Mode.read? at h
    split at h
    · rename_i r hr
      obtain rfl := Option.some.inj h
      obtain ⟨t, ht, hk, -⟩ := Grammar.exists_of_longest? hr
      simp only [Mode.grammar, stringGrammar, List.mem_cons, List.not_mem_nil, or_false] at ht
      rcases ht with rfl | rfl <;> simp at hk
    · split at h <;> simp at h

theorem Scanned.mem_closers {mode last : Mode} {column : Nat} {s : Text} {ts : List Token}
    (h : Scanned mode column s ts last) :
    ∀ t ∈ ts, t.kind = .closing → t.raw ∈ Bracket.closers := by
  induction h with
  | nil => simp
  | cons _ hread _ ih =>
    intro t ht hk
    rcases List.mem_cons.1 ht with rfl | ht
    · obtain rfl : _ = Kind.closing := hk
      exact mem_closers_of_read hread
    · exact ih t ht hk

theorem suits_lineEnd (p : Place) : Suits p .lineEnd ['\n'] := by
  have hnone : ∀ n < ['\n'].length, 0 < n → Kind.lineEnd.Holds (p.after (['\n'].take n)) :=
    fun n hn hpos => absurd hpos (by simp at hn; omega)
  cases p <;> exact ⟨rfl, rfl, rfl, by decide, hnone, by simp, by simp, fun _ => rfl, by simp⟩

/-! ## From line to line -/

/-- The place behind tokens. -/
def Place.along (p : Place) (ps : List Placed) : Place := ps.foldl (fun p q => p.pass q.kind) p

/-- The fences of tokens. -/
def fencesOf (ps : List Placed) : List Fence := ps.flatMap fun q => q.kind.fences q.token.raw

/-- Every token suits the place that those before it lead to. -/
def Phase (p : Place) : List Placed → Prop
  | [] => True
  | q :: ps => Suits p q.kind q.token.raw ∧ Phase (p.pass q.kind) ps

@[simp] theorem Place.along_nil (p : Place) : p.along [] = p := rfl

@[simp] theorem Place.along_cons (p : Place) (q : Placed) (ps : List Placed) :
    p.along (q :: ps) = (p.pass q.kind).along ps := rfl

@[simp] theorem Place.along_append (p : Place) (ps qs : List Placed) :
    p.along (ps ++ qs) = (p.along ps).along qs := List.foldl_append

@[simp] theorem fencesOf_nil : fencesOf [] = [] := rfl

@[simp] theorem fencesOf_cons (q : Placed) (ps : List Placed) :
    fencesOf (q :: ps) = q.kind.fences q.token.raw ++ fencesOf ps := rfl

@[simp] theorem fencesOf_append (ps qs : List Placed) :
    fencesOf (ps ++ qs) = fencesOf ps ++ fencesOf qs := List.flatMap_append

theorem phase_append {p : Place} {ps qs : List Placed} :
    Phase p (ps ++ qs) ↔ Phase p ps ∧ Phase (p.along ps) qs := by
  induction ps generalizing p with
  | nil => simp [Phase]
  | cons q ps ih => simp only [List.cons_append, Phase, ih, Place.along_cons, and_assoc]

theorem Phase.after {p : Place} {ps : List Placed} (h : Phase p ps) :
    p.after (rawText ps) = p.along ps := by
  induction ps generalizing p with
  | nil => rfl
  | cons q ps ih => rw [rawText_cons, Place.after_append, h.1.after, ih h.2, Place.along_cons]

theorem Phase.fences {p : Place} {ps : List Placed} (h : Phase p ps) :
    p.fences (rawText ps) = fencesOf ps := by
  induction ps generalizing p with
  | nil => rfl
  | cons q ps ih =>
    rw [rawText_cons, Place.fences_append, h.1.fences, h.1.after, ih h.2, fencesOf_cons]

/-- The place that a line starts in. -/
def Mode.place : Mode → Place
  | .code => .code
  | .string => .string

theorem Scanned.phase {mode last : Mode} {column : Nat} {s : Text} {ts : List Token}
    (h : Scanned mode column s ts last) (hn : '\n' ∉ s) (row start index : Nat) :
    Phase mode.place (placeTokens row start index ts) ∧
      mode.place.along (placeTokens row start index ts) = last.place := by
  induction h generalizing index with
  | nil mode column =>
    refine ⟨⟨suits_lineEnd _, trivial⟩, ?_⟩
    cases mode <;> rfl
  | @cons mode last column raw rest kind ts hne hread hscan ih =>
    have hrest : '\n' ∉ rest := fun hm => hn (List.mem_append_right _ hm)
    have hih := ih hrest (index + 1)
    have hlast : ∀ p : Place, rest = [] → Phase p (placeTokens row start (index + 1) ts) ∧
        p.along (placeTokens row start (index + 1) ts) = p.pass .lineEnd ∧
        (mode.after kind) = last := by
      rintro p rfl
      generalize hr : ([] : Text) = r at hscan
      cases hscan with
      | nil => exact ⟨⟨suits_lineEnd p, trivial⟩, rfl, rfl⟩
      | cons hne' _ _ => exact absurd (List.append_eq_nil_iff.1 hr.symm).1 hne'
    cases mode with
    | code =>
      obtain ⟨hsuits, hcomment⟩ := suits_code hn hread
      by_cases hk : kind = .comment
      · obtain ⟨hphase, halong, rfl⟩ := hlast .comment (hcomment hk)
        subst hk
        exact ⟨⟨hsuits, hphase⟩, halong⟩
      · have hpass : Place.code.pass kind = (Mode.code.after kind).place := by
          cases kind <;> first | rfl | exact absurd rfl hk
        refine ⟨⟨hsuits, hpass ▸ hih.1⟩, ?_⟩
        exact (congrArg (fun p : Place => p.along _) hpass).trans hih.2
    | string =>
      obtain ⟨hsuits, hjunk⟩ := suits_string hne hn hread
      by_cases hk : kind = .junk
      · obtain ⟨hphase, halong, rfl⟩ := hlast .escape (hjunk hk)
        subst hk
        exact ⟨⟨hsuits, hphase⟩, halong⟩
      · have hpass : Place.string.pass kind = (Mode.string.after kind).place := by
          have hadmits : Place.string.admits kind = true := hsuits.admits
          cases kind <;> first | rfl | exact absurd rfl hk | simp [Place.admits] at hadmits
        refine ⟨⟨hsuits, hpass ▸ hih.1⟩, ?_⟩
        exact (congrArg (fun p : Place => p.along _) hpass).trans hih.2

theorem phase_placeLines {mode : Mode} {ls : List Line} (hu : ∀ l ∈ ls, '\n' ∉ l.text)
    (hfirst : ∀ l, ls[0]? = some l → l.start = mode)
    (hnext : ∀ row l m, ls[row]? = some l → ls[row + 1]? = some m → m.start = l.stop)
    (row start : Nat) :
    Phase mode.place (placeLines row start ls) ∧
      ∀ l, ls.getLast? = some l → mode.place.along (placeLines row start ls) = l.stop.place := by
  induction ls generalizing mode row start with
  | nil => exact ⟨trivial, by simp⟩
  | cons l ls ih =>
    obtain rfl := hfirst l rfl
    obtain ⟨hphase, halong⟩ :=
      l.scannedTokens.phase (hu l List.mem_cons_self) row start 0
    have hrest := ih (fun m hm => hu m (List.mem_cons_of_mem _ hm))
      (fun m hm => hnext 0 l m rfl (by simpa using hm))
      (fun r k m hk hm => hnext (r + 1) k m (by simpa using hk) (by simpa using hm))
      (row + 1) (start + (l.length + 1))
    rw [placeLines, phase_append, halong]
    refine ⟨⟨hphase, hrest.1⟩, fun m hm => ?_⟩
    rw [Place.along_append, halong]
    cases ls with
    | nil =>
      obtain rfl : l = m := by simpa using hm
      rfl
    | cons k ks => exact hrest.2 m (by simpa using hm)

/-! ## Balanced buffers and texts -/

/-- The texts of the opening tokens that are left open, if each closing token closes the last of them
and is of its family. -/
def Token.nest (openers : List Text) : List Token → Option (List Text)
  | [] => some openers
  | t :: ts =>
    match t.kind with
    | .opening => Token.nest (t.raw :: openers) ts
    | .closing =>
      match openers with
      | [] => none
      | o :: rest => if Bracket.paired o t.raw then Token.nest rest ts else none
    | _ => Token.nest openers ts

/-- The opening and closing tokens nest, in pairs of one family, and the last line does not end in a
string. -/
def Buffer.Balanced (b : Buffer) : Prop :=
  Token.nest [] (b.lines.flatMap Line.tokens) = some [] ∧
    (b.lines.getLast b.lines_ne_nil).stop = .code

instance (b : Buffer) : Decidable b.Balanced := inferInstanceAs (Decidable (_ ∧ _))

/-- The brackets in code nest, and the text does not end in a string. -/
def Text.Balanced (s : Text) : Prop :=
  StructEdit.nest [] (Place.code.fences s) = some [] ∧ (Place.code.after s).isFinal = true

instance (s : Text) : Decidable s.Balanced := inferInstanceAs (Decidable (_ ∧ _))

theorem map_token_placeTokens (row start index : Nat) (ts : List Token) :
    (placeTokens row start index ts).map Placed.token = ts := by
  induction ts generalizing index with
  | nil => rfl
  | cons t ts ih => rw [placeTokens, List.map_cons, ih]

theorem map_token_placeLines (row start : Nat) (ls : List Line) :
    (placeLines row start ls).map Placed.token = ls.flatMap Line.tokens := by
  induction ls generalizing row start with
  | nil => rfl
  | cons l ls ih =>
    rw [placeLines, List.map_append, map_token_placeTokens, ih, List.flatMap_cons]

/-- Nesting the tokens is nesting their fences. -/
theorem nest_fencesOf {p : Place} {ps : List Placed} (h : Phase p ps) {os : List Text}
    {bs : List Bracket} (hos : os.map Bracket.ofText? = bs.map some) :
    Token.nest os (ps.map Placed.token) = some [] ↔ nest bs (fencesOf ps) = some [] := by
  induction ps generalizing p os bs with
  | nil =>
    have hlen := congrArg List.length hos
    rw [List.length_map, List.length_map] at hlen
    simp only [List.map_nil, Token.nest, fencesOf_nil, nest_nil, Option.some.injEq]
    rw [← List.length_eq_zero_iff, ← List.length_eq_zero_iff, hlen]
  | cons q ps ih =>
    obtain ⟨hsuits, hps⟩ := h
    have hkind : q.token.kind = q.kind := rfl
    rw [List.map_cons, fencesOf_cons]
    by_cases hopen : q.kind = .opening
    · obtain ⟨b, hb⟩ := hsuits.paired (Or.inl hopen)
      simp only [Token.nest, hkind, hopen, Kind.fences, hb, Option.toList_some, List.map_cons,
        List.map_nil, List.singleton_append, nest_opens]
      exact ih hps (by rw [List.map_cons, List.map_cons, hb, hos])
    · by_cases hclose : q.kind = .closing
      · obtain ⟨b, hb⟩ := hsuits.paired (Or.inr hclose)
        simp only [Token.nest, hkind, hclose, Kind.fences, hb, Option.toList_some, List.map_cons,
          List.map_nil, List.singleton_append]
        cases os with
        | nil =>
          obtain rfl : bs = [] := by simpa using hos.symm
          simp [nest]
        | cons o os =>
          cases bs with
          | nil => simp at hos
          | cons x bs =>
            obtain ⟨ho, hrest⟩ := List.cons.inj hos
            simp only [Bracket.paired, ho, hb, nest, beq_iff_eq]
            by_cases hx : x = b
            · simp only [hx, ↓reduceIte]
              exact ih hps hrest
            · simp [hx]
      · have hnone : q.kind.fences q.token.raw = [] := by
          unfold Kind.fences
          split
          · exact absurd ‹_› hopen
          · exact absurd ‹_› hclose
          · rfl
        rw [hnone, List.nil_append, ← ih hps hos]
        simp only [Token.nest, hkind]

namespace Buffer

variable {b : Buffer}

theorem phase_placed (hs : b.Settled) (hu : b.Unbroken) : Phase .code b.placed :=
  (phase_placeLines hu hs.first hs.next 0 0).1

theorem along_placed (hs : b.Settled) (hu : b.Unbroken) :
    Place.code.along b.placed = (b.lines.getLast b.lines_ne_nil).stop.place :=
  (phase_placeLines hu hs.first hs.next 0 0).2 _ (List.getLast?_eq_some_getLast b.lines_ne_nil)

/-- The last line does not end in a string. -/
def Closed (b : Buffer) : Prop := (b.lines.getLast b.lines_ne_nil).stop = .code

instance (b : Buffer) : Decidable b.Closed := inferInstanceAs (Decidable (_ = _))

theorem closed_iff (hs : b.Settled) (hu : b.Unbroken) :
    b.Closed ↔ (Place.code.after b.text).isFinal = true := by
  have h := along_placed hs hu
  rw [← (phase_placed hs hu).after, rawText_placed, Place.after_append] at h
  unfold Closed
  generalize (b.lines.getLast b.lines_ne_nil).stop = m at h ⊢
  cases hp : Place.code.after b.text <;> rw [hp] at h <;> cases m <;>
    simp_all [Place.after, Place.step, Mode.place, Place.isFinal]

/-- A balanced buffer is one with a balanced text. -/
theorem balanced_iff (hs : b.Settled) (hu : b.Unbroken) : b.Balanced ↔ b.text.Balanced := by
  have hphase := phase_placed hs hu
  have hfences : Place.code.fences b.text = fencesOf b.placed := by
    rw [← hphase.fences, rawText_placed, Place.fences_append]
    cases Place.code.after b.text <;> simp [Place.fences, Fence.ofChar?]
  have hclosed : b.Closed ↔ (Place.code.after b.text).isFinal = true := closed_iff hs hu
  rw [Balanced, Text.Balanced, ← map_token_placeLines 0 0 b.lines, hfences, ← hclosed]
  exact and_congr_left' (nest_fencesOf hphase rfl)

end Buffer
end StructEdit
