import NocapCrypt.Cli.Bench
import NocapCrypt.Library.XorShift

/-! The benchmark data generator over any number of words: `crates/nocap-crypt-bench/src/datagen.rs`. -/

namespace NocapCrypt.Cli.BenchDataGenerator

open NocapCrypt.Library.XorShift

lemma state_injective : Function.Injective state := by
  intro gen gen' h
  cases gen
  cases gen'
  cases h
  rfl

lemma next_injective : Function.Injective next := by
  intro gen gen' h
  have hxor := congrArg (fun g : BenchDataGenerator => g.state.toBitVec) h
  apply state_injective
  apply UInt64.toBitVec_inj.mp
  apply xor_shiftLeft_injective (k := 13) (by decide)
  apply xor_ushiftRight_injective (k := 7) (by decide)
  apply xor_shiftLeft_injective (k := 17) (by decide)
  exact hxor

lemma next_zero : next ⟨0⟩ = ⟨0⟩ := rfl

lemma iterate_next_ne_zero {gen : BenchDataGenerator} (h : gen.state ≠ 0) (steps : ℕ) :
    (next^[steps] gen).state ≠ 0 := by
  intro hzero
  have hstuck : next^[steps] gen = next^[steps] ⟨0⟩ := by
    rw [Function.iterate_fixed next_zero steps]
    exact state_injective hzero
  exact h (congrArg state (next_injective.iterate steps hstuck))

lemma new_ne_zero (seed : UInt64) : (new seed).state ≠ 0 := by
  rw [new]
  split
  · decide
  · assumption

lemma toLeBytes_injective : Function.Injective toLeBytes := by
  intro gen gen' h
  apply state_injective
  apply UInt64.toNat_inj.mp
  have hlt := gen.state.toNat_lt
  have hlt' := gen'.state.toNat_lt
  have hbyte : ∀ i < 8, gen.state.toNat / 2 ^ (8 * i) % 256 = gen'.state.toNat / 2 ^ (8 * i) % 256 := by
    intro i hi
    have hb := congrArg (fun bytes => (bytes[i]?.map UInt8.toNat)) h
    simpa [toLeBytes, hi, Nat.shiftRight_eq_div_pow] using hb
  have h0 := hbyte 0 (by decide)
  have h1 := hbyte 1 (by decide)
  have h2 := hbyte 2 (by decide)
  have h3 := hbyte 3 (by decide)
  have h4 := hbyte 4 (by decide)
  have h5 := hbyte 5 (by decide)
  have h6 := hbyte 6 (by decide)
  have h7 := hbyte 7 (by decide)
  norm_num at h0 h1 h2 h3 h4 h5 h6 h7
  omega

def words : ℕ → BenchDataGenerator → Bytes
  | 0, _ => []
  | chunks + 1, gen => gen.next.toLeBytes ++ words chunks gen.next

lemma words_length (chunks : ℕ) (gen : BenchDataGenerator) : (words chunks gen).length = chunks * 8 := by
  induction chunks generalizing gen with
  | zero => rfl
  | succ chunks ih =>
    rw [words, List.length_append, ih, Nat.succ_mul, Nat.add_comm]
    rfl

lemma words_add (a b : ℕ) (gen : BenchDataGenerator) : words (a + b) gen = words a gen ++ words b (next^[a] gen) := by
  induction a generalizing gen with
  | zero => rw [Nat.zero_add, words, List.nil_append, Function.iterate_zero_apply]
  | succ a ih => rw [Nat.succ_add, words, ih, words, List.append_assoc, Function.iterate_succ_apply]

/-- The loop writes whole words, cut off at the end of the buffer, and steps once for each. -/
lemma fill_eq (chunks : ℕ) (gen : BenchDataGenerator) (len : ℕ) :
    fill chunks gen len = ((words chunks gen).take len, next^[chunks] gen) := by
  induction chunks generalizing gen len with
  | zero => simp [fill, words]
  | succ chunks ih =>
    have hword : gen.next.toLeBytes.length = 8 := rfl
    rw [fill, ih, words, List.take_append, hword, Function.iterate_succ_apply]
    simp only
    rw [← hword, List.take_eq_take_min (l := gen.next.toLeBytes) (i := len), min_comm]

lemma generate_eq_take {len chunks : ℕ} (h : divCeil len 8 ≤ chunks) (gen : BenchDataGenerator) :
    gen.generate len = (words chunks gen).take len := by
  obtain ⟨rest, rfl⟩ := Nat.exists_eq_add_of_le h
  have hlen : len ≤ (words (divCeil len 8) gen).length := by
    rw [words_length]
    exact le_divCeil_mul len (by decide)
  rw [generate, fill_eq, words_add, List.take_append_of_le_length hlen]

lemma generate_take {m n : ℕ} (h : m ≤ n) (gen : BenchDataGenerator) :
    (gen.generate n).take m = gen.generate m := by
  have hchunks : divCeil m 8 ≤ divCeil n 8 :=
    (divCeil_le_iff (by decide)).mpr (h.trans (le_divCeil_mul n (by decide)))
  rw [generate_eq_take le_rfl gen, generate_eq_take hchunks gen, List.take_take, min_eq_left h]

lemma generate_ne {gen gen' : BenchDataGenerator} (h : gen ≠ gen') {len : ℕ} (hlen : 8 ≤ len) :
    gen.generate len ≠ gen'.generate len := by
  intro he
  have hword : gen.generate 8 = gen'.generate 8 := by
    rw [← generate_take hlen gen, ← generate_take hlen gen', he]
  exact h (next_injective (toLeBytes_injective hword))

/-- The state never becomes zero, distinct seeds stay apart after every number of passes, and a longer run of one
seed starts with the shorter one. -/
theorem fill_seed_faithful :
    (∀ seed chunks len, (fill chunks (new seed) len).2.state ≠ 0) ∧
    (∀ seed seed', seed ≠ 0 → seed' ≠ 0 → seed ≠ seed' →
      (∀ chunks len len', (fill chunks (new seed) len).2.state ≠ (fill chunks (new seed') len').2.state) ∧
        ∀ len, 8 ≤ len → (new seed).generate len ≠ (new seed').generate len) ∧
    ∀ seed m n, m ≤ n → (new seed).generate m <+: (new seed).generate n := by
  refine ⟨?_, ?_, ?_⟩
  · intro seed chunks len
    rw [fill_eq]
    exact iterate_next_ne_zero (new_ne_zero seed) chunks
  · intro seed seed' h h' hne
    have hnew : new seed ≠ new seed' := by
      intro he
      rw [new, new, if_neg h, if_neg h'] at he
      exact hne (congrArg state he)
    refine ⟨?_, fun len => generate_ne hnew⟩
    intro chunks len len' he
    rw [fill_eq, fill_eq] at he
    exact hnew (next_injective.iterate chunks (state_injective he))
  · intro seed m n hmn
    rw [← generate_take hmn]
    exact List.take_prefix m _

theorem fill_seed_faithful_sample :
    (new 1).generate 9 ≠ (new 2).generate 9 ∧ (new 1).generate 9 <+: (new 1).generate 12 := by
  obtain ⟨-, hseeds, hprefix⟩ := fill_seed_faithful
  exact ⟨(hseeds 1 2 (by decide) (by decide) (by decide)).2 9 (by decide), hprefix 1 9 12 (by decide)⟩

end NocapCrypt.Cli.BenchDataGenerator
