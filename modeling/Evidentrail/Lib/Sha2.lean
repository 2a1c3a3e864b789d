import Mathlib.Data.Nat.Bits
import Mathlib.Tactic.Ring

/-!
# SHA-256

The hash function of FIPS 180-4, over words that are natural numbers
below `2 ^ 32`. Everything is structural recursion over lists, so a
digest of a concrete message is a closed computation.
-/

namespace Sha2

/-! ## Word functions -/

def rotr (n x : Nat) : Nat := ((x >>> n) ||| (x <<< (32 - n))) % 2 ^ 32

def bigSigma0 (x : Nat) : Nat := rotr 2 x ^^^ rotr 13 x ^^^ rotr 22 x

def bigSigma1 (x : Nat) : Nat := rotr 6 x ^^^ rotr 11 x ^^^ rotr 25 x

def smallSigma0 (x : Nat) : Nat := rotr 7 x ^^^ rotr 18 x ^^^ (x >>> 3)

def smallSigma1 (x : Nat) : Nat := rotr 17 x ^^^ rotr 19 x ^^^ (x >>> 10)

def ch (x y z : Nat) : Nat := (x &&& y) ^^^ ((2 ^ 32 - 1 - x) &&& z)

def maj (x y z : Nat) : Nat := (x &&& y) ^^^ (x &&& z) ^^^ (y &&& z)

/-- The first thirty-two bits of the fractional parts of the cube roots
of the first sixty-four primes. -/
def roundConstants : List Nat :=
  [0x428a2f98, 0x71374491, 0xb5c0fbcf, 0xe9b5dba5, 0x3956c25b, 0x59f111f1,
   0x923f82a4, 0xab1c5ed5, 0xd807aa98, 0x12835b01, 0x243185be, 0x550c7dc3,
   0x72be5d74, 0x80deb1fe, 0x9bdc06a7, 0xc19bf174, 0xe49b69c1, 0xefbe4786,
   0x0fc19dc6, 0x240ca1cc, 0x2de92c6f, 0x4a7484aa, 0x5cb0a9dc, 0x76f988da,
   0x983e5152, 0xa831c66d, 0xb00327c8, 0xbf597fc7, 0xc6e00bf3, 0xd5a79147,
   0x06ca6351, 0x14292967, 0x27b70a85, 0x2e1b2138, 0x4d2c6dfc, 0x53380d13,
   0x650a7354, 0x766a0abb, 0x81c2c92e, 0x92722c85, 0xa2bfe8a1, 0xa81a664b,
   0xc24b8b70, 0xc76c51a3, 0xd192e819, 0xd6990624, 0xf40e3585, 0x106aa070,
   0x19a4c116, 0x1e376c08, 0x2748774c, 0x34b0bcb5, 0x391c0cb3, 0x4ed8aa4a,
   0x5b9cca4f, 0x682e6ff3, 0x748f82ee, 0x78a5636f, 0x84c87814, 0x8cc70208,
   0x90befffa, 0xa4506ceb, 0xbef9a3f7, 0xc67178f2]

/-! ## Compression -/

/-- The eight working variables. -/
structure Chaining where
  a : Nat
  b : Nat
  c : Nat
  d : Nat
  e : Nat
  f : Nat
  g : Nat
  h : Nat

def initial : Chaining :=
  ⟨0x6a09e667, 0xbb67ae85, 0x3c6ef372, 0xa54ff53a, 0x510e527f, 0x9b05688c,
   0x1f83d9ab, 0x5be0cd19⟩

def round (s : Chaining) (k w : Nat) : Chaining :=
  let t1 := s.h + bigSigma1 s.e + ch s.e s.f s.g + k + w
  let t2 := bigSigma0 s.a + maj s.a s.b s.c
  ⟨(t1 + t2) % 2 ^ 32, s.a, s.b, s.c, (s.d + t1) % 2 ^ 32, s.e, s.f, s.g⟩

/-- One round for each constant. The schedule is a window of sixteen
words: its head is consumed and the word sixteen places later appended. -/
def rounds : List Nat → List Nat → Chaining → Chaining
  | k :: ks, w :: ws, s =>
      let next := (smallSigma1 (ws.getD 13 0) + ws.getD 8 0
        + smallSigma0 (ws.getD 0 0) + w) % 2 ^ 32
      rounds ks (ws ++ [next]) (round s k w)
  | _, _, s => s

def compress (s : Chaining) (block : List Nat) : Chaining :=
  let r := rounds roundConstants block s
  ⟨(s.a + r.a) % 2 ^ 32, (s.b + r.b) % 2 ^ 32, (s.c + r.c) % 2 ^ 32,
   (s.d + r.d) % 2 ^ 32, (s.e + r.e) % 2 ^ 32, (s.f + r.f) % 2 ^ 32,
   (s.g + r.g) % 2 ^ 32, (s.h + r.h) % 2 ^ 32⟩

/-! ## Padding and digest -/

/-- The `n` low bytes of `x`, most significant first. -/
def beBytes : Nat → Nat → List Nat
  | 0, _ => []
  | n + 1, x => (x >>> (8 * n)) % 256 :: beBytes n x

def pad (m : List Nat) : List Nat :=
  m ++ [0x80] ++ List.replicate ((119 - m.length % 64) % 64) 0
    ++ beBytes 8 (8 * m.length)

def words : List Nat → List Nat
  | a :: b :: c :: d :: rest =>
      (((a <<< 8 + b) <<< 8 + c) <<< 8 + d) :: words rest
  | _ => []

def blocks : Nat → List Nat → List (List Nat)
  | 0, _ => []
  | n + 1, ws => ws.take 16 :: blocks n (ws.drop 16)

def chaining (m : List Nat) : Chaining :=
  let ws := words (pad m)
  (blocks (ws.length / 16) ws).foldl compress initial

def sha256 (m : List UInt8) : List UInt8 :=
  let s := chaining (m.map UInt8.toNat)
  ([s.a, s.b, s.c, s.d, s.e, s.f, s.g, s.h].flatMap (beBytes 4)).map UInt8.ofNat

theorem length_beBytes (n x : Nat) : (beBytes n x).length = n := by
  induction n with
  | zero => rfl
  | succ n ih => simp [beBytes, ih]

theorem length_sha256 (m : List UInt8) : (sha256 m).length = 32 := by
  simp [sha256, length_beBytes]

/-! ## Evaluation

The same function over plain `Nat` operations on literals, with the window of
sixteen words as arguments and the rounds one inside the other. Closed digests
reduce through it many times faster. A rotation is a shift of a word that stands
twice in a row. -/

/-- A word in front of itself. -/
def doubled (x : Nat) : Nat := Nat.lor x (Nat.shiftLeft x 32)

/-- Three rotations of a doubled word, added bit by bit. -/
def rotations (i j k x : Nat) : Nat :=
  Nat.mod (Nat.xor (Nat.xor (Nat.shiftRight x i) (Nat.shiftRight x j)) (Nat.shiftRight x k))
    4294967296

/-- Two rotations of a doubled word. -/
def rotationPair (i j x : Nat) : Nat :=
  Nat.mod (Nat.xor (Nat.shiftRight x i) (Nat.shiftRight x j)) 4294967296

/-- The first sum of a round. -/
def firstSum (e f g h k w : Nat) : Nat :=
  Nat.add (Nat.add (Nat.add (Nat.add h (rotations 6 11 25 (doubled e)))
    (Nat.xor (Nat.land e f) (Nat.land (Nat.sub 4294967295 e) g))) k) w

/-- The second sum of a round. -/
def secondSum (a b c : Nat) : Nat :=
  Nat.add (rotations 2 13 22 (doubled a))
    (Nat.xor (Nat.xor (Nat.land a b) (Nat.land a c)) (Nat.land b c))

/-- The word that enters the window. -/
def scheduled (w0 w1 w9 w14 : Nat) : Nat :=
  Nat.mod (Nat.add (Nat.add (Nat.add
    (Nat.xor (rotationPair 17 19 (doubled w14)) (Nat.shiftRight w14 10)) w9)
    (Nat.xor (rotationPair 7 18 (doubled w1)) (Nat.shiftRight w1 3))) w0) 4294967296

/-- The rounds that are left, from a window and the working variables on. -/
abbrev Rounds := (w0 w1 w2 w3 w4 w5 w6 w7 w8 w9 w10 w11 w12 w13 w14 w15 : Nat) →
  (a b c d e f g h : Nat) → Chaining

def step (k : Nat) (next : Rounds) : Rounds :=
  fun w0 w1 w2 w3 w4 w5 w6 w7 w8 w9 w10 w11 w12 w13 w14 w15 a b c d e f g h =>
    next w1 w2 w3 w4 w5 w6 w7 w8 w9 w10 w11 w12 w13 w14 w15 (scheduled w0 w1 w9 w14)
      (Nat.mod (Nat.add (firstSum e f g h k w0) (secondSum a b c)) 4294967296) a b c
      (Nat.mod (Nat.add d (firstSum e f g h k w0)) 4294967296) e f g

def last : Rounds :=
  fun _ _ _ _ _ _ _ _ _ _ _ _ _ _ _ _ a b c d e f g h => ⟨a, b, c, d, e, f, g, h⟩

def windowRounds : Rounds :=
  step 0x428a2f98 <| step 0x71374491 <| step 0xb5c0fbcf <| step 0xe9b5dba5 <|
  step 0x3956c25b <| step 0x59f111f1 <| step 0x923f82a4 <| step 0xab1c5ed5 <|
  step 0xd807aa98 <| step 0x12835b01 <| step 0x243185be <| step 0x550c7dc3 <|
  step 0x72be5d74 <| step 0x80deb1fe <| step 0x9bdc06a7 <| step 0xc19bf174 <|
  step 0xe49b69c1 <| step 0xefbe4786 <| step 0x0fc19dc6 <| step 0x240ca1cc <|
  step 0x2de92c6f <| step 0x4a7484aa <| step 0x5cb0a9dc <| step 0x76f988da <|
  step 0x983e5152 <| step 0xa831c66d <| step 0xb00327c8 <| step 0xbf597fc7 <|
  step 0xc6e00bf3 <| step 0xd5a79147 <| step 0x06ca6351 <| step 0x14292967 <|
  step 0x27b70a85 <| step 0x2e1b2138 <| step 0x4d2c6dfc <| step 0x53380d13 <|
  step 0x650a7354 <| step 0x766a0abb <| step 0x81c2c92e <| step 0x92722c85 <|
  step 0xa2bfe8a1 <| step 0xa81a664b <| step 0xc24b8b70 <| step 0xc76c51a3 <|
  step 0xd192e819 <| step 0xd6990624 <| step 0xf40e3585 <| step 0x106aa070 <|
  step 0x19a4c116 <| step 0x1e376c08 <| step 0x2748774c <| step 0x34b0bcb5 <|
  step 0x391c0cb3 <| step 0x4ed8aa4a <| step 0x5b9cca4f <| step 0x682e6ff3 <|
  step 0x748f82ee <| step 0x78a5636f <| step 0x84c87814 <| step 0x8cc70208 <|
  step 0x90befffa <| step 0xa4506ceb <| step 0xbef9a3f7 <| step 0xc67178f2 <|
  last

theorem windowRounds_eq_foldr : windowRounds = roundConstants.foldr step last := by
  simp only [windowRounds, roundConstants, List.foldr_cons, List.foldr_nil]

theorem shiftRight_doubled {n x : Nat} (h : n ≤ 32) :
    Nat.shiftRight (doubled x) n % 2 ^ 32 = rotr n x := by
  have hhigh : (x <<< 32) >>> n = x <<< (32 - n) := by
    rw [← Nat.shiftLeft_sub _ h]
  show (x ||| x <<< 32) >>> n % 2 ^ 32 = _
  rw [Nat.shiftRight_or_distrib, hhigh, rotr]

theorem rotations_eq {i j k x : Nat} (hi : i ≤ 32) (hj : j ≤ 32) (hk : k ≤ 32) :
    rotations i j k (doubled x) = rotr i x ^^^ rotr j x ^^^ rotr k x := by
  rw [← shiftRight_doubled hi, ← shiftRight_doubled hj, ← shiftRight_doubled hk,
    ← Nat.xor_mod_two_pow, ← Nat.xor_mod_two_pow]
  rfl

theorem rotationPair_eq {i j x : Nat} (hi : i ≤ 32) (hj : j ≤ 32) :
    rotationPair i j (doubled x) = rotr i x ^^^ rotr j x := by
  rw [← shiftRight_doubled hi, ← shiftRight_doubled hj, ← Nat.xor_mod_two_pow]
  rfl

theorem firstSum_eq (e f g h k w : Nat) :
    firstSum e f g h k w = h + bigSigma1 e + ch e f g + k + w := by
  rw [bigSigma1, ← rotations_eq (by decide) (by decide) (by decide)]
  rfl

theorem secondSum_eq (a b c : Nat) : secondSum a b c = bigSigma0 a + maj a b c := by
  rw [bigSigma0, ← rotations_eq (by decide) (by decide) (by decide)]
  rfl

theorem scheduled_eq (w0 w1 w9 w14 : Nat) :
    scheduled w0 w1 w9 w14 = (smallSigma1 w14 + w9 + smallSigma0 w1 + w0) % 2 ^ 32 := by
  rw [smallSigma0, smallSigma1, ← rotationPair_eq (by decide) (by decide),
    ← rotationPair_eq (by decide) (by decide)]
  rfl

theorem rounds_eq_foldr (ks : List Nat) :
    ∀ w0 w1 w2 w3 w4 w5 w6 w7 w8 w9 w10 w11 w12 w13 w14 w15 a b c d e f g h : Nat,
      rounds ks [w0, w1, w2, w3, w4, w5, w6, w7, w8, w9, w10, w11, w12, w13, w14, w15]
          ⟨a, b, c, d, e, f, g, h⟩ =
        ks.foldr step last w0 w1 w2 w3 w4 w5 w6 w7 w8 w9 w10 w11 w12 w13 w14 w15
          a b c d e f g h := by
  induction ks with
  | nil => intros; rfl
  | cons k ks ih =>
      intro w0 w1 w2 w3 w4 w5 w6 w7 w8 w9 w10 w11 w12 w13 w14 w15 a b c d e f g h
      rw [List.foldr_cons, step, ← ih, scheduled_eq, firstSum_eq, secondSum_eq]
      rfl

def windowCompress (s : Chaining) : List Nat → Chaining
  | [w0, w1, w2, w3, w4, w5, w6, w7, w8, w9, w10, w11, w12, w13, w14, w15] =>
      let r := windowRounds w0 w1 w2 w3 w4 w5 w6 w7 w8 w9 w10 w11 w12 w13 w14 w15
        s.a s.b s.c s.d s.e s.f s.g s.h
      ⟨Nat.mod (Nat.add s.a r.a) 4294967296, Nat.mod (Nat.add s.b r.b) 4294967296,
       Nat.mod (Nat.add s.c r.c) 4294967296, Nat.mod (Nat.add s.d r.d) 4294967296,
       Nat.mod (Nat.add s.e r.e) 4294967296, Nat.mod (Nat.add s.f r.f) 4294967296,
       Nat.mod (Nat.add s.g r.g) 4294967296, Nat.mod (Nat.add s.h r.h) 4294967296⟩
  | block => compress s block

theorem windowCompress_eq (s : Chaining) (block : List Nat) :
    windowCompress s block = compress s block := by
  unfold windowCompress
  split
  · rw [windowRounds_eq_foldr]
    unfold compress
    simp only [← rounds_eq_foldr]
    rfl
  · rfl

/-! ### A message as one number

Padding is arithmetic on the number, and a word of a block a slice of its bits. -/

def bigEndian : List UInt8 → Nat → Nat
  | [], n => n
  | byte :: rest, n => bigEndian rest (Nat.add (Nat.mul n 256) byte.toNat)

/-- The word above the low `k` bits. -/
def wordAt (n k : Nat) : Nat := Nat.mod (Nat.shiftRight n k) 4294967296

def numberCompress (s : Chaining) (n : Nat) : Chaining :=
  windowCompress s [wordAt n 480, wordAt n 448, wordAt n 416, wordAt n 384, wordAt n 352,
    wordAt n 320, wordAt n 288, wordAt n 256, wordAt n 224, wordAt n 192, wordAt n 160,
    wordAt n 128, wordAt n 96, wordAt n 64, wordAt n 32, wordAt n 0]

/-- The last `k` blocks of a number. -/
def chained (k n : Nat) (s : Chaining) : Chaining :=
  (List.range k).reverse.foldl (fun s i => numberCompress s (Nat.shiftRight n (Nat.mul 512 i))) s

/-- The zeros between the end mark and the length. -/
def zeros (length : Nat) : Nat := (119 - length % 64) % 64

def padded (m : List UInt8) : Nat :=
  Nat.add (Nat.shiftLeft (Nat.add (Nat.mul (bigEndian m 0) 256) 128)
    (Nat.mul 8 (Nat.add (zeros m.length) 8))) (Nat.mod (Nat.mul 8 m.length) 18446744073709551616)

/-- The bytes as digits. -/
def ofBytes (l : List Nat) : Nat := l.foldl (fun n byte => n * 256 + byte) 0

theorem foldl_ofBytes (l : List Nat) (n : Nat) :
    l.foldl (fun n byte => n * 256 + byte) n = n * 2 ^ (8 * l.length) + ofBytes l := by
  induction l generalizing n with
  | nil => simp [ofBytes]
  | cons byte l ih =>
      have hzero : ofBytes (byte :: l) = (0 * 256 + byte) * 2 ^ (8 * l.length) + ofBytes l := ih _
      rw [List.foldl_cons, ih, hzero, List.length_cons, Nat.mul_add 8, Nat.pow_add]
      ring

theorem ofBytes_append (a b : List Nat) :
    ofBytes (a ++ b) = ofBytes a * 2 ^ (8 * b.length) + ofBytes b := by
  rw [ofBytes, List.foldl_append, foldl_ofBytes]
  rfl

theorem ofBytes_cons (byte : Nat) (l : List Nat) :
    ofBytes (byte :: l) = byte * 2 ^ (8 * l.length) + ofBytes l := by
  rw [← List.singleton_append, ofBytes_append]
  simp [ofBytes]

theorem ofBytes_lt {l : List Nat} (h : ∀ byte ∈ l, byte < 256) :
    ofBytes l < 2 ^ (8 * l.length) := by
  induction l with
  | nil => exact Nat.one_pos
  | cons byte l ih =>
      rw [List.forall_mem_cons] at h
      have hrest := ih h.2
      rw [ofBytes_cons, List.length_cons, Nat.mul_succ, Nat.pow_add]
      calc byte * 2 ^ (8 * l.length) + ofBytes l
          < byte * 2 ^ (8 * l.length) + 2 ^ (8 * l.length) := by omega
        _ = (byte + 1) * 2 ^ (8 * l.length) := by ring
        _ ≤ 256 * 2 ^ (8 * l.length) := Nat.mul_le_mul_right _ h.1
        _ = 2 ^ (8 * l.length) * 2 ^ 8 := by ring

theorem bigEndian_eq (m : List UInt8) (n : Nat) :
    bigEndian m n = (m.map UInt8.toNat).foldl (fun n byte => n * 256 + byte) n := by
  induction m generalizing n with
  | nil => rfl
  | cons byte m ih => exact ih _

theorem ofBytes_beBytes (n x : Nat) : ofBytes (beBytes n x) = x % 2 ^ (8 * n) := by
  induction n with
  | zero => simp [beBytes, ofBytes, Nat.mod_one]
  | succ n ih =>
      rw [beBytes, ofBytes_cons, length_beBytes, ih, Nat.shiftRight_eq_div_pow, Nat.mul_succ,
        Nat.pow_add, Nat.mod_mul]
      ring

theorem ofBytes_replicate_zero (n : Nat) : ofBytes (List.replicate n 0) = 0 := by
  induction n with
  | zero => rfl
  | succ n ih => rw [List.replicate_succ, ofBytes_cons, ih, Nat.zero_mul]

theorem padded_eq (m : List UInt8) : padded m = ofBytes (pad (m.map UInt8.toNat)) := by
  have hmark : ofBytes [128] = 128 := rfl
  have hdigits : bigEndian m 0 = ofBytes (m.map UInt8.toNat) := bigEndian_eq m 0
  rw [pad, ofBytes_append, ofBytes_append, ofBytes_append, ofBytes_replicate_zero, length_beBytes,
    ofBytes_beBytes, hmark, List.length_map, List.length_replicate, List.length_singleton, padded,
    hdigits, zeros]
  generalize (119 - m.length % 64) % 64 = z
  show ((_ * 256 + 128) <<< (8 * (z + 8))) + (8 * m.length) % 2 ^ (8 * 8) = _
  rw [Nat.shiftLeft_eq, Nat.mul_add 8, Nat.pow_add]
  ring

/-! ### Words and blocks -/

/-- A word of the low bits. -/
theorem wordAt_low {n k c : Nat} (b : Nat) (h : b + 32 ≤ k) :
    wordAt (n * 2 ^ k + c) b = wordAt c b := by
  obtain ⟨j, rfl⟩ := Nat.exists_eq_add_of_le h
  show (n * 2 ^ (b + 32 + j) + c) >>> b % 2 ^ 32 = c >>> b % 2 ^ 32
  have hsplit : n * 2 ^ (b + 32 + j) + c = 2 ^ b * (2 ^ 32 * (n * 2 ^ j)) + c := by
    rw [Nat.pow_add, Nat.pow_add]
    ring
  rw [Nat.shiftRight_eq_div_pow, Nat.shiftRight_eq_div_pow, hsplit,
    Nat.mul_add_div (Nat.two_pow_pos b), Nat.mul_add_mod]

/-- A word of the high bits. -/
theorem wordAt_high {n k c : Nat} (b : Nat) (h : c < 2 ^ k) :
    wordAt (n * 2 ^ k + c) (k + b) = wordAt n b := by
  show (n * 2 ^ k + c) >>> (k + b) % 2 ^ 32 = n >>> b % 2 ^ 32
  rw [Nat.shiftRight_add, Nat.shiftRight_eq_div_pow _ k, Nat.mul_comm,
    Nat.mul_add_div (Nat.two_pow_pos k), Nat.div_eq_of_lt h, Nat.add_zero]

theorem words_append {a b : List Nat} {k : Nat} (h : a.length = 4 * k) :
    words (a ++ b) = words a ++ words b := by
  induction k generalizing a with
  | zero =>
      obtain rfl := List.eq_nil_of_length_eq_zero h
      rfl
  | succ k ih =>
      match a, h with
      | w :: x :: y :: z :: rest, h =>
          have hrest : rest.length = 4 * k := by
            simp only [List.length_cons] at h
            omega
          exact congrArg _ (ih hrest)

/-- The words of some bytes are the digits of their number. -/
theorem words_eq {l : List Nat} {k : Nat} (h : ∀ byte ∈ l, byte < 256)
    (hlength : l.length = 4 * k) :
    words l = (List.range k).reverse.map fun i => wordAt (ofBytes l) (32 * i) := by
  induction k generalizing l with
  | zero =>
      obtain rfl := List.eq_nil_of_length_eq_zero hlength
      rfl
  | succ k ih =>
      match l, hlength with
      | a :: b :: c :: d :: rest, hlength =>
          have hrest : rest.length = 4 * k := by
            simp only [List.length_cons] at hlength
            omega
          simp only [List.forall_mem_cons] at h
          obtain ⟨ha, hb, hc, hd, hbytes⟩ := h
          have hbits : 8 * rest.length = 32 * k := by omega
          have hlow : ofBytes rest < 2 ^ (32 * k) := hbits ▸ ofBytes_lt hbytes
          have hword : (((a <<< 8 + b) <<< 8 + c) <<< 8 + d) < 2 ^ 32 := by
            simp only [Nat.shiftLeft_eq]
            omega
          have hnumber : ofBytes (a :: b :: c :: d :: rest) =
              (((a <<< 8 + b) <<< 8 + c) <<< 8 + d) * 2 ^ (32 * k) + ofBytes rest := by
            simp only [ofBytes_cons, List.length_cons, Nat.mul_add 8, hbits, Nat.pow_add,
              Nat.shiftLeft_eq]
            ring
          rw [words, List.range_succ, List.reverse_append, List.reverse_singleton, hnumber,
            List.singleton_append, List.map_cons]
          congr 1
          · have hhigh := wordAt_high (n := ((a <<< 8 + b) <<< 8 + c) <<< 8 + d) 0 hlow
            rw [Nat.add_zero] at hhigh
            rw [hhigh]
            exact (Nat.mod_eq_of_lt hword).symm
          · rw [ih hbytes hrest]
            refine List.map_congr_left fun i hi => (wordAt_low _ ?_).symm
            rw [List.mem_reverse, List.mem_range] at hi
            omega

theorem numberCompress_eq (s : Chaining) (n : Nat) : numberCompress s n =
    compress s ((List.range 16).reverse.map fun i => wordAt n (32 * i)) :=
  windowCompress_eq s _

/-- The last blocks of a number are those of its last bytes. -/
theorem chained_eq {l : List Nat} {k n : Nat} (h : ∀ byte ∈ l, byte < 256)
    (hlength : l.length = 64 * k) (hn : n % 2 ^ (512 * k) = ofBytes l) (s : Chaining) :
    chained k n s = (blocks k (words l)).foldl compress s := by
  induction k generalizing l s with
  | zero => rfl
  | succ k ih =>
      have hfirst : (l.take 64).length = 4 * 16 := by
        rw [List.length_take]
        omega
      have hrest : (l.drop 64).length = 64 * k := by
        rw [List.length_drop]
        omega
      have hsplit : words l = words (l.take 64) ++ words (l.drop 64) := by
        rw [← words_append hfirst, List.take_append_drop]
      have hbits : 8 * (l.drop 64).length = 512 * k := by omega
      have hnumber : ofBytes l =
          ofBytes (l.take 64) * 2 ^ (512 * k) + ofBytes (l.drop 64) := by
        rw [← hbits, ← ofBytes_append, List.take_append_drop]
      have hlow : ofBytes (l.drop 64) < 2 ^ (512 * k) :=
        hbits ▸ ofBytes_lt fun byte hbyte => h byte (List.mem_of_mem_drop hbyte)
      have hwords := words_eq (fun byte hbyte => h byte (List.mem_of_mem_take hbyte)) hfirst
      have hblock : ((List.range 16).reverse.map fun i =>
          wordAt (Nat.shiftRight n (Nat.mul 512 k)) (32 * i)) = words (l.take 64) := by
        rw [hwords]
        refine List.map_congr_left fun i hi => ?_
        rw [List.mem_reverse, List.mem_range] at hi
        have hshift : wordAt (Nat.shiftRight n (Nat.mul 512 k)) (32 * i) =
            wordAt n (512 * k + 32 * i) :=
          congrArg (· % 4294967296) (Nat.shiftRight_add n (512 * k) (32 * i)).symm
        have hdivide := Nat.div_add_mod' n (2 ^ (512 * (k + 1)))
        rw [hn] at hdivide
        rw [hshift, ← hdivide, wordAt_low _ (by omega), hnumber, wordAt_high _ hlow]
      have hmod : n % 2 ^ (512 * k) = ofBytes (l.drop 64) := by
        have hdvd : 2 ^ (512 * k) ∣ 2 ^ (512 * (k + 1)) := Nat.pow_dvd_pow 2 (by omega)
        rw [← Nat.mod_mod_of_dvd n hdvd, hn, hnumber, Nat.mul_comm, Nat.mul_add_mod,
          Nat.mod_eq_of_lt hlow]
      have hsixteen : (words (l.take 64)).length = 16 := by
        rw [hwords, List.length_map, List.length_reverse, List.length_range]
      rw [chained, List.range_succ, List.reverse_append, List.reverse_singleton,
        List.singleton_append, List.foldl_cons, numberCompress_eq, hblock, blocks, List.foldl_cons,
        hsplit, List.take_left' hsixteen, List.drop_left' hsixteen]
      exact ih (fun byte hbyte => h byte (List.mem_of_mem_drop hbyte)) hrest hmod _

/-- The bytes of a word, in front of others. -/
def wordBytes (x : Nat) (rest : List UInt8) : List UInt8 :=
  UInt8.ofNat (Nat.shiftRight x 24) :: UInt8.ofNat (Nat.shiftRight x 16) ::
    UInt8.ofNat (Nat.shiftRight x 8) :: UInt8.ofNat x :: rest

theorem map_beBytes_append (x : Nat) (rest : List UInt8) :
    (beBytes 4 x).map UInt8.ofNat ++ rest = wordBytes x rest := by
  have hlow : ∀ n : Nat, UInt8.ofNat (n % 256) = UInt8.ofNat n := fun _ => UInt8.ofNat_mod_size
  simp only [beBytes, List.map_cons, List.map_nil, List.cons_append, List.nil_append, hlow]
  rfl

/-- The digest through the number of the message. -/
def evaluated (m : List UInt8) : List UInt8 :=
  let s := chained ((m.length + 9 + zeros m.length) / 64) (padded m) initial
  wordBytes s.a (wordBytes s.b (wordBytes s.c (wordBytes s.d
    (wordBytes s.e (wordBytes s.f (wordBytes s.g (wordBytes s.h [])))))))

theorem sha256_eq_evaluated (m : List UInt8) : sha256 m = evaluated m := by
  generalize hp : pad (m.map UInt8.toNat) = p
  have hbytes : ∀ byte ∈ p, byte < 256 := by
    have hbe : ∀ n x, ∀ byte ∈ beBytes n x, byte < 256 := by
      intro n x
      induction n with
      | zero => exact fun byte hbyte => absurd hbyte List.not_mem_nil
      | succ n ih =>
          rw [beBytes, List.forall_mem_cons]
          exact ⟨Nat.mod_lt _ (by omega), ih⟩
    intro byte hbyte
    rw [← hp, pad, List.mem_append, List.mem_append, List.mem_append] at hbyte
    rcases hbyte with ((hmessage | hmark) | hzero) | hcount
    · obtain ⟨b, _, rfl⟩ := List.mem_map.mp hmessage
      exact b.toNat_lt
    · rw [List.mem_singleton.mp hmark]
      decide
    · rw [List.eq_of_mem_replicate hzero]
      decide
    · exact hbe _ _ byte hcount
  have hlength : p.length = 64 * ((m.length + 9 + zeros m.length) / 64) := by
    rw [← hp, pad, List.length_append, List.length_append, List.length_append, List.length_map,
      List.length_replicate, List.length_singleton, length_beBytes, zeros]
    omega
  have hwords : (words p).length = 16 * ((m.length + 9 + zeros m.length) / 64) := by
    rw [words_eq (k := 16 * ((m.length + 9 + zeros m.length) / 64)) hbytes (by omega),
      List.length_map, List.length_reverse, List.length_range]
  have hnumber : padded m % 2 ^ (512 * ((m.length + 9 + zeros m.length) / 64)) = ofBytes p := by
    have hlt := ofBytes_lt hbytes
    rw [hlength] at hlt
    rw [padded_eq, hp, Nat.mod_eq_of_lt]
    exact lt_of_lt_of_le hlt (Nat.pow_le_pow_right Nat.two_pos (by omega))
  rw [sha256, evaluated, chained_eq hbytes hlength hnumber, chaining, hp, hwords,
    Nat.mul_div_cancel_left _ (by omega)]
  simp only [List.flatMap_cons, List.flatMap_nil, List.map_append, List.map_nil,
    map_beBytes_append]

theorem length_evaluated (m : List UInt8) : (evaluated m).length = 32 := by
  rw [← sha256_eq_evaluated, length_sha256]

end Sha2
