import OCF.Fabric.Node
import OCF.Foundations.Utf8
import Mathlib.Algebra.Group.Nat.Defs
import Mathlib.Data.List.GetD
import Mathlib.Data.List.Nodup
import Mathlib.Tactic.Common

/-!
# Keys and how they are written

A node's public key is written in two ways: the hexadecimal fingerprint of its first bytes is the
node's id in the mesh, and the base64 form of the whole key is its identity as a WireGuard peer.
`base64_injective` says that the second form is faithful, so a WireGuard key determines the node.

A key pair is generated from the random bytes of the operating system, or derived from a name. What
the X25519 library makes of the bytes is a parameter.
-/

namespace OCF.Fabric

/-- Two hexadecimal digits for each byte. -/
def toHex (bytes : Bytes) : String :=
  String.ofList (bytes.flatMap fun b : UInt8 =>
    [Nat.digitChar (b >>> 4).toNat, Nat.digitChar (b &&& 0x0f).toNat])

/-- A short, stable fingerprint of a public key: the first 8 bytes. -/
def fingerprint (publicKey : Bytes) : String := toHex (publicKey.take 8)

/-- The base64 alphabet. -/
def base64Alphabet : List Char :=
  "ABCDEFGHIJKLMNOPQRSTUVWXYZabcdefghijklmnopqrstuvwxyz0123456789+/".toList

def base64Symbol (n : UInt8) : Char := base64Alphabet.getD n.toNat '='

/-- The four characters of a chunk of one to three bytes. -/
def base64Quad (b0 : UInt8) (b1 b2 : Option UInt8) : List Char :=
  let x1 := b1.getD 0
  let x2 := b2.getD 0
  [base64Symbol (b0 >>> 2), base64Symbol (((b0 &&& 0x03) <<< 4) ||| (x1 >>> 4)),
    if b1.isSome then base64Symbol (((x1 &&& 0x0f) <<< 2) ||| (x2 >>> 6)) else '=',
    if b2.isSome then base64Symbol (x2 &&& 0x3f) else '=']

/-- The characters of the base64 form, chunk by chunk. -/
def base64Chars : Bytes → List Char
  | [] => []
  | [b0] => base64Quad b0 none none
  | [b0, b1] => base64Quad b0 (some b1) none
  | b0 :: b1 :: b2 :: rest => base64Quad b0 (some b1) (some b2) ++ base64Chars rest

/-- Standard base64 with padding. -/
def base64 (bytes : Bytes) : String := String.ofList (base64Chars bytes)

example : base64 [0x66, 0x6f] = "Zm8=" := by decide +kernel

/-! ## The symbols of a chunk -/

/-- The alphabet has 64 different symbols, and the padding is not one of them. -/
theorem base64Alphabet_symbols :
    base64Alphabet.length = 64 ∧ base64Alphabet.Nodup ∧ '=' ∉ base64Alphabet := by
  decide +kernel

theorem base64Symbol_inj {m n : UInt8} (hm : m.toNat < 64) (hn : n.toNat < 64)
    (h : base64Symbol m = base64Symbol n) : m = n := by
  obtain ⟨hlen, hnodup, -⟩ := base64Alphabet_symbols
  rw [base64Symbol, base64Symbol, List.getD_eq_getElem _ _ (by omega),
    List.getD_eq_getElem _ _ (by omega)] at h
  exact UInt8.toNat_inj.1 ((hnodup.getElem_inj_iff).1 h)

theorem base64Symbol_ne_pad {n : UInt8} (hn : n.toNat < 64) : base64Symbol n ≠ '=' := by
  obtain ⟨hlen, -, hpad⟩ := base64Alphabet_symbols
  rw [base64Symbol, List.getD_eq_getElem _ _ (by omega)]
  intro h
  exact hpad (h ▸ List.getElem_mem _)

theorem toNat_shiftRight_eq (b k : UInt8) (hk : k.toNat < 8) :
    (b >>> k).toNat = b.toNat / 2 ^ k.toNat := by
  rw [UInt8.toNat_shiftRight, Nat.mod_eq_of_lt hk, Nat.shiftRight_eq_div_pow]

/-- High bits next to low bits. -/
theorem toNat_join {x y k : UInt8} (hk : k.toNat < 8) (hx : x.toNat * 2 ^ k.toNat < 256)
    (hy : y.toNat < 2 ^ k.toNat) : ((x <<< k) ||| y).toNat = x.toNat * 2 ^ k.toNat + y.toNat := by
  have hsh : (x <<< k).toNat = x.toNat <<< k.toNat := by
    rw [UInt8.toNat_shiftLeft, Nat.mod_eq_of_lt hk, Nat.mod_eq_of_lt]
    rwa [Nat.shiftLeft_eq]
  rw [UInt8.toNat_or, hsh, ← Nat.shiftLeft_add_eq_or_of_lt hy, Nat.shiftLeft_eq]

/-- The four six-bit groups of a chunk, as numbers. -/
theorem toNat_sextets (b c d : UInt8) :
    (b >>> 2).toNat = b.toNat / 4 ∧
      (((b &&& 0x03) <<< 4) ||| (c >>> 4)).toNat = b.toNat % 4 * 16 + c.toNat / 16 ∧
      (((c &&& 0x0f) <<< 2) ||| (d >>> 6)).toNat = c.toNat % 16 * 4 + d.toNat / 64 ∧
      (d &&& 0x3f).toNat = d.toNat % 64 := by
  have hb := b.toNat_lt
  have hc := c.toNat_lt
  have hd := d.toNat_lt
  have hand : ∀ x : UInt8, (x &&& 0x03).toNat = x.toNat % 4 ∧ (x &&& 0x0f).toNat = x.toNat % 16 ∧
      (x &&& 0x3f).toNat = x.toNat % 64 := fun x => by
    simp only [UInt8.toNat_and]
    exact ⟨Nat.and_two_pow_sub_one_eq_mod x.toNat 2, Nat.and_two_pow_sub_one_eq_mod x.toNat 4,
      Nat.and_two_pow_sub_one_eq_mod x.toNat 6⟩
  have h4 : (c >>> 4).toNat = c.toNat / 16 := toNat_shiftRight_eq c 4 (by decide)
  have h6 : (d >>> 6).toNat = d.toNat / 64 := toNat_shiftRight_eq d 6 (by decide)
  refine ⟨toNat_shiftRight_eq b 2 (by decide), ?_, ?_, (hand d).2.2⟩
  · rw [toNat_join (by decide) (by rw [(hand b).1]; simp; omega) (by rw [h4]; simp; omega),
      (hand b).1, h4]
    rfl
  · rw [toNat_join (by decide) (by rw [(hand c).2.1]; simp; omega) (by rw [h6]; simp; omega),
      (hand c).2.1, h6]
    rfl

/-- A chunk can be read off its four characters. -/
theorem base64Quad_inj {b0 c0 : UInt8} {b1 b2 c1 c2 : Option UInt8}
    (hb : b1 = none → b2 = none) (hc : c1 = none → c2 = none)
    (h : base64Quad b0 b1 b2 = base64Quad c0 c1 c2) : b0 = c0 ∧ b1 = c1 ∧ b2 = c2 := by
  have hlt := b0.toNat_lt
  have hlt' := c0.toNat_lt
  obtain ⟨s0, s1, s2, s3⟩ := toNat_sextets b0 (b1.getD 0) (b2.getD 0)
  obtain ⟨t0, t1, t2, t3⟩ := toNat_sextets c0 (c1.getD 0) (c2.getD 0)
  have h1lt := (b1.getD 0).toNat_lt
  have h2lt := (b2.getD 0).toNat_lt
  have h1lt' := (c1.getD 0).toNat_lt
  have h2lt' := (c2.getD 0).toNat_lt
  simp only [base64Quad, List.cons.injEq, and_true] at h
  obtain ⟨h0, h1, h2, h3⟩ := h
  have e0 := congrArg UInt8.toNat (base64Symbol_inj (by omega) (by omega) h0)
  have e1 := congrArg UInt8.toNat (base64Symbol_inj (by omega) (by omega) h1)
  have hfirst : b0 = c0 := UInt8.toNat_inj.1 (by omega)
  cases b1 with
  | none =>
    cases c1 with
    | none => exact ⟨hfirst, rfl, (hb rfl).trans (hc rfl).symm⟩
    | some y1 => exact absurd h2.symm (base64Symbol_ne_pad (by omega))
  | some x1 =>
    cases c1 with
    | none => exact absurd h2 (base64Symbol_ne_pad (by omega))
    | some y1 =>
      have e2 := congrArg UInt8.toNat (base64Symbol_inj (by omega) (by omega) h2)
      simp only [Option.getD_some] at s1 s2 t1 t2 e1 e2 h1lt h1lt'
      have hsecond : x1 = y1 := UInt8.toNat_inj.1 (by omega)
      refine ⟨hfirst, congrArg some hsecond, ?_⟩
      cases b2 with
      | none =>
        cases c2 with
        | none => rfl
        | some y2 => exact absurd h3.symm (base64Symbol_ne_pad (by omega))
      | some x2 =>
        cases c2 with
        | none => exact absurd h3 (base64Symbol_ne_pad (by omega))
        | some y2 =>
          have e3 := congrArg UInt8.toNat (base64Symbol_inj (by omega) (by omega) h3)
          simp only [Option.getD_some] at s2 s3 t2 t3 e2 e3 h2lt h2lt'
          exact congrArg some (UInt8.toNat_inj.1 (by omega))

/-! ## Reading a key back -/

theorem base64Chars_cons (b : UInt8) (bytes : Bytes) :
    base64Chars (b :: bytes) = base64Quad b bytes[0]? bytes[1]? ++ base64Chars (bytes.drop 2) := by
  match bytes with
  | [] => simp [base64Chars]
  | [b1] => simp [base64Chars]
  | b1 :: b2 :: rest => simp [base64Chars]

theorem base64Chars_injective {a b : Bytes} (h : base64Chars a = base64Chars b) : a = b := by
  match a, b with
  | [], [] => rfl
  | [], y :: ys =>
    rw [base64Chars_cons] at h
    simp [base64Chars, base64Quad] at h
  | x :: xs, [] =>
    rw [base64Chars_cons] at h
    simp [base64Chars, base64Quad] at h
  | x :: xs, y :: ys =>
    rw [base64Chars_cons, base64Chars_cons] at h
    obtain ⟨hquad, hrest⟩ := List.append_inj h (by simp [base64Quad])
    have hshort : ∀ l : Bytes, l[0]? = none → l[1]? = none := fun l hl => by
      rw [List.getElem?_eq_none_iff] at hl ⊢
      omega
    obtain ⟨rfl, h0, h1⟩ := base64Quad_inj (hshort xs) (hshort ys) hquad
    have hdrop := base64Chars_injective hrest
    refine congrArg _ (List.ext_getElem? fun i => ?_)
    match i with
    | 0 => exact h0
    | 1 => exact h1
    | i + 2 =>
      have hi := congrArg (fun l : Bytes => l[i]?) hdrop
      simpa [List.getElem?_drop, Nat.add_comm 2] using hi
termination_by a.length

/-- **A key can be read off its base64 form.** -/
theorem base64_injective : Function.Injective base64 :=
  fun _ _ h => base64Chars_injective (String.ofList_injective h)

/-! ## Key pairs -/

/-- The X25519 library: the bytes of the static secret made from given bytes, and of its public
key. -/
structure X25519 where
  secretBytes : Bytes → Bytes
  publicBytes : Bytes → Bytes

/-- A public and secret key that identify a node. -/
structure KeyPair where
  publicKey : Bytes
  secret : Bytes
  deriving DecidableEq

/-- The source of random bytes of the operating system, and what it yields. -/
abbrev OsRng := ℕ → UInt8

/-- A 64-bit FNV-1a hash, with the round folded in up front. -/
def fnv1a (input : Bytes) (round : UInt8) : UInt64 :=
  input.foldl (fun hash b => (hash ^^^ b.toUInt64) * 0x100000001b3)
    (0xcbf29ce484222325 ^^^ round.toUInt64)

/-- The 16 bytes of an input: the low two bytes of eight hashes. -/
def seed16 (input : Bytes) : Bytes :=
  (List.range 8).flatMap fun chunk =>
    let h := fnv1a input (UInt8.ofNat chunk)
    [(h &&& 0xff).toUInt8, ((h >>> 8) &&& 0xff).toUInt8]

/-- A seed followed by its reverse. -/
def expandTo32 (seed : Bytes) : Bytes := seed ++ seed.reverse

namespace KeyPair

variable (lib : X25519)

def fromStaticSecret (scalar : Bytes) : KeyPair := ⟨lib.publicBytes scalar, lib.secretBytes scalar⟩

/-- A fresh pair from the random bytes of the operating system, and what is left of these. -/
def generate (rng : OsRng) : KeyPair × OsRng :=
  (fromStaticSecret lib ((List.range 32).map rng), fun i => rng (i + 32))

/-- The pair that belongs to a name. -/
def fromSeedName (name : String) : KeyPair := fromStaticSecret lib (expandTo32 (seed16 (utf8 name)))

end KeyPair

end OCF.Fabric
