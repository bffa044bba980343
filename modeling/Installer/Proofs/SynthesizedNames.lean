import Installer.Proofs.Discriminators
import Installer.Proofs.Domains

/-! # Synthesized names

A synthesized name is a stem and the 32 digits of a hash. Since there are always as many digits, the stem
and the hash are both read back from the name, whatever the stem is (`Identifier.synthesizeWith_eq_iff`);
that names differ is then a matter of the hash and of the bytes that are hashed. Nothing here depends on
how the bytes are hashed: `Identifier.synthesizeWith` takes any function to digests of 128 bits. -/

namespace Installer

/-! ### Digits of digests -/

theorem Text.hexDigit_inj {m n : Nat} (hm : m < 16) (hn : n < 16) (h : hexDigit m = hexDigit n) :
    m = n := by
  have hall : ∀ m < 16, ∀ n < 16, hexDigit m = hexDigit n → m = n := by decide
  exact hall m hm n hn h

/-- A number is known by its digits if there are enough of them. -/
theorem Text.hexDigits_inj {k m n : Nat} (hm : m < 16 ^ k) (hn : n < 16 ^ k)
    (h : hexDigits k m = hexDigits k n) : m = n := by
  induction k generalizing m n with
  | zero => simp_all
  | succ k ih =>
    rw [Nat.pow_succ] at hm hn
    obtain ⟨hrest, hlast⟩ := List.append_inj' h rfl
    have hdiv : m / 16 = n / 16 :=
      ih (Nat.div_lt_of_lt_mul (by omega)) (Nat.div_lt_of_lt_mul (by omega)) hrest
    have hmod : m % 16 = n % 16 :=
      hexDigit_inj (Nat.mod_lt _ (by decide)) (Nat.mod_lt _ (by decide)) (List.cons.inj hlast).1
    omega

namespace Hash.Xxh3.Digest

theorem toNat_lt (d : Digest) : d.toNat < 16 ^ 32 := by
  have hhigh := d.high.toNat_lt
  have hlow := d.low.toNat_lt
  simp only [toNat]
  omega

theorem toNat_inj {d e : Digest} : d.toNat = e.toNat ↔ d = e := by
  refine ⟨fun h => ?_, congrArg toNat⟩
  have hd := d.low.toNat_lt
  have he := e.low.toNat_lt
  simp only [toNat] at h
  obtain ⟨high, low⟩ := d
  obtain ⟨high', low'⟩ := e
  rw [mk.injEq, ← UInt64.toNat_inj, ← UInt64.toNat_inj]
  dsimp only at *
  omega

end Hash.Xxh3.Digest

/-! ### Names -/

namespace Identifier

/-- The name with the given stem for a list of values, by any way of hashing. -/
def synthesizeWith (hash : ByteArray → Hash.Xxh3.Digest) (stem : String) (values : List String) :
    String :=
  stem ++ String.ofList (Text.hexDigits 32 (hash ⟨(discriminatorBytes values).toArray⟩).toNat)

theorem synthesize_eq_synthesizeWith (stem : String) (values : List String) :
    synthesize stem values = synthesizeWith Hash.Xxh3.digest stem values := rfl

variable {hash : ByteArray → Hash.Xxh3.Digest} {stem stem' : String} {vs ws : List String}

/-- The stem and the hash are read back from the name. -/
theorem synthesizeWith_eq_iff :
    synthesizeWith hash stem vs = synthesizeWith hash stem' ws ↔ stem = stem' ∧
      hash ⟨(discriminatorBytes vs).toArray⟩ = hash ⟨(discriminatorBytes ws).toArray⟩ := by
  constructor
  · intro h
    have hchars := congrArg String.toList h
    simp only [synthesizeWith, String.toList_append, String.toList_ofList] at hchars
    -- Both names end with the same number of digits.
    obtain ⟨hstem, hdigits⟩ := List.append_inj' hchars (by simp)
    refine ⟨String.toList_inj.mp hstem, ?_⟩
    exact Hash.Xxh3.Digest.toNat_inj.mp
      (Text.hexDigits_inj (Hash.Xxh3.Digest.toNat_lt _) (Hash.Xxh3.Digest.toNat_lt _) hdigits)
  · rintro ⟨rfl, hhash⟩
    rw [synthesizeWith, hhash, synthesizeWith]

theorem isName_synthesizeWith (h : IsName stem) : IsName (synthesizeWith hash stem vs) :=
  h.append fun c hc => .inl (Text.isAlphanum_of_mem_hexDigits c hc)

/-- **Synthesized names keep lists of values apart**, however they are hashed. The bytes that are hashed
tell the list of values; with one stem, names are equal if and only if the hashes are; with a stem that is
a name, the whole is a name; and with different stems, names are different whatever the values are. -/
theorem synthesized_names_apart (hash : ByteArray → Hash.Xxh3.Digest) :
    (∀ vs ws : List String, (∀ v ∈ vs, v.utf8ByteSize < 2 ^ 64) →
      (∀ w ∈ ws, w.utf8ByteSize < 2 ^ 64) →
      (discriminatorBytes vs = discriminatorBytes ws ↔ vs = ws)) ∧
    (∀ (stem : String) (vs ws : List String),
      synthesizeWith hash stem vs = synthesizeWith hash stem ws ↔
        hash ⟨(discriminatorBytes vs).toArray⟩ = hash ⟨(discriminatorBytes ws).toArray⟩) ∧
    (∀ (stem : String) (vs : List String), IsName stem → IsName (synthesizeWith hash stem vs)) ∧
    (∀ stem stem' : String, stem ≠ stem' → ∀ vs ws : List String,
      synthesizeWith hash stem vs ≠ synthesizeWith hash stem' ws) ∧
    ∀ (stem : String) (vs : List String),
      synthesize stem vs = synthesizeWith Hash.Xxh3.digest stem vs := by
  refine ⟨fun vs ws hvs hws => ⟨discriminatorBytes_inj hvs hws, congrArg _⟩, fun stem vs ws => ?_,
    fun stem vs => isName_synthesizeWith, fun stem stem' hne vs ws heq => ?_,
    synthesize_eq_synthesizeWith⟩
  · rw [synthesizeWith_eq_iff]
    exact and_iff_right rfl
  · exact hne (synthesizeWith_eq_iff.mp heq).1

end Identifier

/-- Values that look like lengths and values, stems of which one starts like the other, and empty
values. -/
theorem synthesized_names_apart_lengths :
    Identifier.discriminatorBytes ["", ""] ≠
        Identifier.discriminatorBytes ["\x00\x00\x00\x00\x00\x00\x00\x00"] ∧
      Identifier.discriminatorBytes ["ab", "c"] ≠ Identifier.discriminatorBytes ["a", "bc"] ∧
      Identifier.IsName (Identifier.synthesize "ec" ["tool.exe", "*"]) ∧
      Identifier.synthesize "pp" ["a"] ≠ Identifier.synthesize "pkg" ["a"] := by
  obtain ⟨hbytes, -, hname, hstem, hwith⟩ :=
    Identifier.synthesized_names_apart Hash.Xxh3.digest
  refine ⟨fun h => ?_, fun h => ?_, ?_, ?_⟩
  · have hlists := (hbytes _ _ (by decide) (by decide)).mp h
    simp at hlists
  · have hlists := (hbytes _ _ (by decide) (by decide)).mp h
    simp at hlists
  · rw [hwith]
    exact hname _ _ (Identifier.isLegal_iff_isName.mp (by decide))
  · rw [hwith, hwith]
    exact hstem _ _ (by decide) _ _

end Installer
