import SyntaxForest.Text.Quoted
import Mathlib.Tactic.SplitIfs

/-!
# Proofs/Text/Quoted — texts that are told from what follows them

A number, a word and a quoted text end where something comes that cannot belong to them.  So each of them can
be read back from the front of a longer text, and the rest of the text with it.

* `append_inj_of_stops` — what consists of characters of one sort ends before the first of another.
* `Text.toDigits_inj` — the digits of a number determine it.
* `Text.escape_append_inj` — **escaped characters are told apart**, whatever follows them.
* `Text.quoted_append_inj` — **a quoted text is read back**.
* `Text.join_lines_inj` — lines that are not broken in two are read back.
-/

namespace SyntaxForest

/-- **Two parts of one sort that end before something of another** are the same, and so is what follows. -/
theorem append_inj_of_stops {α : Type} {p : α → Bool} {as bs r r' : List α} (ha : ∀ x ∈ as, p x = true)
    (hb : ∀ x ∈ bs, p x = true) (hr : ∀ x ∈ r.head?, p x = false) (hr' : ∀ x ∈ r'.head?, p x = false)
    (h : as ++ r = bs ++ r') : as = bs ∧ r = r' := by
  induction as generalizing bs with
  | nil =>
    cases bs with
    | nil => exact ⟨rfl, h⟩
    | cons b bs =>
      rw [List.nil_append] at h
      have hstop := hr b (by rw [h]; rfl)
      rw [hb b List.mem_cons_self] at hstop
      cases hstop
  | cons a as ih =>
    cases bs with
    | nil =>
      rw [List.nil_append] at h
      have hstop := hr' a (by rw [← h]; rfl)
      rw [ha a List.mem_cons_self] at hstop
      cases hstop
    | cons b bs =>
      obtain ⟨rfl, htail⟩ := List.cons.inj h
      obtain ⟨rfl, rfl⟩ := ih (fun x hx => ha x (List.mem_cons_of_mem _ hx))
        (fun x hx => hb x (List.mem_cons_of_mem _ hx)) htail
      exact ⟨rfl, rfl⟩

namespace Text

/-! ## Digits -/

section Digits

variable {base m n : Nat} (hbase : 1 < base) (hle : base ≤ 16)

theorem isAlphanum_digitChar : ∀ n < 16, (Nat.digitChar n).isAlphanum = true := by decide

theorem digitChar_inj : ∀ m < 16, ∀ n < 16, Nat.digitChar m = Nat.digitChar n → m = n := by decide

include hbase hle

theorem isAlphanum_of_mem_toDigits {c : Char} (hc : c ∈ Nat.toDigits base n) : c.isAlphanum = true := by
  induction n using Nat.strongRecOn with
  | ind n ih =>
    rw [Nat.toDigits_eq_if hbase] at hc
    split at hc
    · next hn =>
      obtain rfl := List.mem_singleton.1 hc
      exact isAlphanum_digitChar n (by omega)
    · next hn =>
      rcases List.mem_append.1 hc with hc | hc
      · exact ih _ (Nat.div_lt_self (by omega) hbase) hc
      · obtain rfl := List.mem_singleton.1 hc
        exact isAlphanum_digitChar _ (Nat.lt_of_lt_of_le (Nat.mod_lt _ (by omega)) hle)

/-- **The digits of a number determine it.** -/
theorem toDigits_inj (h : Nat.toDigits base m = Nat.toDigits base n) : m = n := by
  induction m using Nat.strongRecOn generalizing n with
  | ind m ih =>
    rw [Nat.toDigits_eq_if hbase, Nat.toDigits_eq_if (n := n) hbase] at h
    have hlast : ∀ k, k % base < 16 := fun k => Nat.lt_of_lt_of_le (Nat.mod_lt _ (by omega)) hle
    split at h <;> split at h
    · exact digitChar_inj m (by omega) n (by omega) (List.singleton_inj.1 h)
    · exact absurd (List.append_eq_singleton_iff.1 h.symm) (by simp [Nat.toDigits_ne_nil])
    · exact absurd (List.append_eq_singleton_iff.1 h) (by simp [Nat.toDigits_ne_nil])
    · obtain ⟨hinit, hchar⟩ := List.append_inj' h rfl
      have hdiv := ih (m / base) (Nat.div_lt_self (by omega) hbase) hinit
      have hmod := digitChar_inj _ (hlast m) _ (hlast n) (List.singleton_inj.1 hchar)
      rw [← Nat.div_add_mod m base, ← Nat.div_add_mod n base, hdiv, hmod]

/-- A number is read back, if no letter or digit follows it. -/
theorem toDigits_append_inj {r r' : List Char} (hr : ∀ c ∈ r.head?, c.isAlphanum = false)
    (hr' : ∀ c ∈ r'.head?, c.isAlphanum = false)
    (h : Nat.toDigits base m ++ r = Nat.toDigits base n ++ r') : m = n ∧ r = r' := by
  obtain ⟨hdigits, rfl⟩ := append_inj_of_stops (fun _ => isAlphanum_of_mem_toDigits hbase hle)
    (fun _ => isAlphanum_of_mem_toDigits hbase hle) hr hr' h
  exact ⟨toDigits_inj hbase hle hdigits, rfl⟩

end Digits

/-! ## Escapes -/

/-- The characters with an escape of two characters, and the second of the two. -/
def shortEscapes : List (Char × Char) :=
  [('\x00', '0'), ('\t', 't'), ('\n', 'n'), ('\r', 'r'), ('"', '"'), ('\\', '\\')]

/-- **What stands for a character**: itself, two characters, or its code point. -/
theorem escape_cases (c : Char) : (escape c = [c] ∧ c ≠ '"' ∧ c ≠ '\\') ∨
    (∃ e, (c, e) ∈ shortEscapes ∧ escape c = ['\\', e]) ∨
    escape c = '\\' :: 'u' :: '\x7b' :: (hexDigits c.toNat ++ ['\x7d']) := by
  rw [escape]
  split_ifs with h0 ht hn hr hquote hback
  · exact .inr (.inl ⟨'0', by rw [h0]; decide, rfl⟩)
  · exact .inr (.inl ⟨'t', by rw [ht]; decide, rfl⟩)
  · exact .inr (.inl ⟨'n', by rw [hn]; decide, rfl⟩)
  · exact .inr (.inl ⟨'r', by rw [hr]; decide, rfl⟩)
  · exact .inr (.inl ⟨'"', by rw [hquote]; decide, rfl⟩)
  · exact .inr (.inl ⟨'\\', by rw [hback]; decide, rfl⟩)
  · exact .inr (.inr rfl)
  · exact .inl ⟨rfl, hquote, hback⟩

theorem shortEscapes_inj : ∀ x ∈ shortEscapes, ∀ y ∈ shortEscapes, x.2 = y.2 → x = y := by decide

theorem shortEscapes_ne_u : ∀ x ∈ shortEscapes, x.2 ≠ 'u' := by decide

/-- **Escaped characters are told apart**, whatever follows them. -/
theorem escape_append_inj {c d : Char} {r r' : List Char} (h : escape c ++ r = escape d ++ r') :
    c = d ∧ r = r' := by
  obtain ⟨hc, -, hback⟩ | ⟨e, he, hc⟩ | hc := escape_cases c <;>
    obtain ⟨hd, -, hback'⟩ | ⟨f, hf, hd⟩ | hd := escape_cases d <;> rw [hc, hd] at h
  · exact List.cons.inj h
  · exact absurd (List.cons.inj h).1 hback
  · exact absurd (List.cons.inj h).1 hback
  · exact absurd (List.cons.inj h).1.symm hback'
  · obtain ⟨rfl, hrest⟩ := List.cons.inj (List.cons.inj h).2
    exact ⟨(Prod.mk.inj (shortEscapes_inj _ he _ hf rfl)).1, hrest⟩
  · exact absurd (List.cons.inj (List.cons.inj h).2).1 (shortEscapes_ne_u _ he)
  · exact absurd (List.cons.inj h).1.symm hback'
  · exact absurd (List.cons.inj (List.cons.inj h).2).1.symm (shortEscapes_ne_u _ hf)
  · have hdigits : hexDigits c.toNat ++ '\x7d' :: r = hexDigits d.toNat ++ '\x7d' :: r' := by
      simpa using h
    obtain ⟨hcode, hrest⟩ := toDigits_append_inj (by decide) (by decide) (by simp) (by simp) hdigits
    exact ⟨Char.toNat_inj.1 hcode, (List.cons.inj hrest).2⟩

/-- No escape begins with a quote. -/
theorem escape_append_ne (c : Char) (r r' : List Char) : escape c ++ r ≠ '"' :: r' := by
  intro h
  obtain ⟨hc, hquote, -⟩ | ⟨e, he, hc⟩ | hc := escape_cases c <;> rw [hc] at h
  · exact hquote (List.cons.inj h).1
  · exact absurd (List.cons.inj h).1 (by decide)
  · exact absurd (List.cons.inj h).1 (by decide)

/-- **A quoted text is read back**, whatever follows it. -/
theorem quoted_append_inj {a b : String} {r r' : List Char}
    (h : (quoted a).toList ++ r = (quoted b).toList ++ r') : a = b ∧ r = r' := by
  have hchars : ∀ as bs : List Char, as.flatMap escape ++ '"' :: r = bs.flatMap escape ++ '"' :: r' →
      as = bs ∧ r = r' := by
    intro as
    induction as with
    | nil =>
      rintro (_ | ⟨d, bs⟩) h
      · exact ⟨rfl, (List.cons.inj h).2⟩
      · rw [List.flatMap_cons, List.append_assoc] at h
        exact absurd h.symm (escape_append_ne d _ _)
    | cons c as ih =>
      rintro (_ | ⟨d, bs⟩) h
      · rw [List.flatMap_cons, List.append_assoc] at h
        exact absurd h (escape_append_ne c _ _)
      · rw [List.flatMap_cons, List.flatMap_cons, List.append_assoc, List.append_assoc] at h
        obtain ⟨rfl, hrest⟩ := escape_append_inj h
        obtain ⟨rfl, hr⟩ := ih bs hrest
        exact ⟨rfl, hr⟩
  obtain ⟨hlist, hr⟩ := hchars a.toList b.toList (by simpa [quoted] using h)
  exact ⟨String.toList_inj.1 hlist, hr⟩

/-! ## Lines -/

/-- There is no line break in the text. -/
def Unbroken (s : String) : Prop := '\n' ∉ s.toList

instance (s : String) : Decidable (Unbroken s) := inferInstanceAs (Decidable ('\n' ∉ s.toList))

section Unbroken

variable {s s' : String}

theorem Unbroken.append (h : Unbroken s) (h' : Unbroken s') : Unbroken (s ++ s') := by
  rw [Unbroken, String.toList_append, List.mem_append]
  exact not_or.2 ⟨h, h'⟩

theorem Unbroken.join {ss : List String} (h : ∀ s ∈ ss, Unbroken s) : Unbroken (String.join ss) := by
  rw [Unbroken, String.toList_join, List.mem_flatMap]
  rintro ⟨s, hs, hmem⟩
  exact h s hs hmem

theorem not_mem_toDigits {base : Nat} (hbase : 1 < base) (hle : base ≤ 16) (n : Nat) :
    '\n' ∉ Nat.toDigits base n :=
  fun hmem => absurd (isAlphanum_of_mem_toDigits hbase hle hmem) (by decide)

theorem unbroken_toString (n : Nat) : Unbroken (toString n) := by
  rw [Unbroken, Nat.toString_eq_ofList_toDigits, String.toList_ofList]
  exact not_mem_toDigits (by decide) (by decide) n

/-- A line break is escaped. -/
theorem not_mem_escape (c : Char) : '\n' ∉ escape c := by
  rw [escape]
  split_ifs with _ _ hbreak
  · decide
  · decide
  · decide
  · decide
  · decide
  · decide
  · simpa using show '\n' ∉ hexDigits c.toNat from not_mem_toDigits (by decide) (by decide) _
  · exact mt List.mem_singleton.1 (Ne.symm hbreak)

theorem unbroken_quoted (s : String) : Unbroken (quoted s) := by
  rw [Unbroken, quoted, String.toList_ofList]
  simpa using fun c _ => not_mem_escape c

/-- **A text of ended lines is read back line by line**, if no line is broken in two. -/
theorem join_lines_inj {ls ls' : List String} (hls : ∀ l ∈ ls, Unbroken l) (hls' : ∀ l ∈ ls', Unbroken l)
    (h : String.join (ls.map (· ++ "\n")) = String.join (ls'.map (· ++ "\n"))) : ls = ls' := by
  have hchars : ∀ ls ls' : List String, (∀ l ∈ ls, Unbroken l) → (∀ l ∈ ls', Unbroken l) →
      (ls.flatMap fun l => l.toList ++ ['\n']) = (ls'.flatMap fun l => l.toList ++ ['\n']) → ls = ls' := by
    intro ls
    induction ls with
    | nil =>
      rintro (_ | ⟨l', ls'⟩) - - h
      · rfl
      · simp at h
    | cons l ls ih =>
      rintro (_ | ⟨l', ls'⟩) hls hls' h
      · simp at h
      · obtain ⟨hl, hls⟩ := List.forall_mem_cons.1 hls
        obtain ⟨hl', hls'⟩ := List.forall_mem_cons.1 hls'
        simp only [List.flatMap_cons, List.append_assoc, List.singleton_append] at h
        obtain ⟨hline, hrest⟩ := append_inj_of_stops (p := (· != '\n'))
          (fun c hc => bne_iff_ne.2 fun heq => hl (heq ▸ hc))
          (fun c hc => bne_iff_ne.2 fun heq => hl' (heq ▸ hc)) (by simp) (by simp) h
        rw [String.toList_inj.1 hline, ih ls' hls hls' (List.cons.inj hrest).2]
  refine hchars ls ls' hls hls' ?_
  have hlist := congrArg String.toList h
  simpa [String.toList_join, List.flatMap_map] using hlist

end Unbroken

end Text

end SyntaxForest
