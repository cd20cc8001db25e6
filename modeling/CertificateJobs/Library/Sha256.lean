import Mathlib.Algebra.Group.Nat.Defs
import Mathlib.Data.List.Basic

namespace Sha256

abbrev Word := BitVec 32

def roundConstants : List Word :=
  [0x428a2f98#32, 0x71374491#32, 0xb5c0fbcf#32, 0xe9b5dba5#32, 0x3956c25b#32, 0x59f111f1#32, 0x923f82a4#32, 0xab1c5ed5#32,
   0xd807aa98#32, 0x12835b01#32, 0x243185be#32, 0x550c7dc3#32, 0x72be5d74#32, 0x80deb1fe#32, 0x9bdc06a7#32, 0xc19bf174#32,
   0xe49b69c1#32, 0xefbe4786#32, 0x0fc19dc6#32, 0x240ca1cc#32, 0x2de92c6f#32, 0x4a7484aa#32, 0x5cb0a9dc#32, 0x76f988da#32,
   0x983e5152#32, 0xa831c66d#32, 0xb00327c8#32, 0xbf597fc7#32, 0xc6e00bf3#32, 0xd5a79147#32, 0x06ca6351#32, 0x14292967#32,
   0x27b70a85#32, 0x2e1b2138#32, 0x4d2c6dfc#32, 0x53380d13#32, 0x650a7354#32, 0x766a0abb#32, 0x81c2c92e#32, 0x92722c85#32,
   0xa2bfe8a1#32, 0xa81a664b#32, 0xc24b8b70#32, 0xc76c51a3#32, 0xd192e819#32, 0xd6990624#32, 0xf40e3585#32, 0x106aa070#32,
   0x19a4c116#32, 0x1e376c08#32, 0x2748774c#32, 0x34b0bcb5#32, 0x391c0cb3#32, 0x4ed8aa4a#32, 0x5b9cca4f#32, 0x682e6ff3#32,
   0x748f82ee#32, 0x78a5636f#32, 0x84c87814#32, 0x8cc70208#32, 0x90befffa#32, 0xa4506ceb#32, 0xbef9a3f7#32, 0xc67178f2#32]

structure Registers where
  a : Word
  b : Word
  c : Word
  d : Word
  e : Word
  f : Word
  g : Word
  h : Word

def initial : Registers :=
  ⟨0x6a09e667#32, 0xbb67ae85#32, 0x3c6ef372#32, 0xa54ff53a#32,
   0x510e527f#32, 0x9b05688c#32, 0x1f83d9ab#32, 0x5be0cd19#32⟩

def Registers.words (r : Registers) : List Word := [r.a, r.b, r.c, r.d, r.e, r.f, r.g, r.h]

def Registers.add (x y : Registers) : Registers :=
  ⟨x.a + y.a, x.b + y.b, x.c + y.c, x.d + y.d, x.e + y.e, x.f + y.f, x.g + y.g, x.h + y.h⟩

def round (r : Registers) (k w : Word) : Registers :=
  let s1 := r.e.rotateRight 6 ^^^ r.e.rotateRight 11 ^^^ r.e.rotateRight 25
  let choice := (r.e &&& r.f) ^^^ (~~~r.e &&& r.g)
  let t1 := r.h + s1 + choice + k + w
  let s0 := r.a.rotateRight 2 ^^^ r.a.rotateRight 13 ^^^ r.a.rotateRight 22
  let majority := (r.a &&& r.b) ^^^ (r.a &&& r.c) ^^^ (r.b &&& r.c)
  ⟨t1 + s0 + majority, r.a, r.b, r.c, r.d + t1, r.e, r.f, r.g⟩

def nextWord : List Word → Word
  | w0 :: w1 :: _ :: _ :: _ :: _ :: _ :: _ :: _ :: w9 :: _ :: _ :: _ :: _ :: w14 :: _ =>
    w0 + (w1.rotateRight 7 ^^^ w1.rotateRight 18 ^^^ w1 >>> 3) + w9 +
      (w14.rotateRight 17 ^^^ w14.rotateRight 19 ^^^ w14 >>> 10)
  | _ => 0

def rounds : List Word → List Word → Registers → Registers
  | [], _, r => r
  | k :: ks, window, r => rounds ks (window.tail ++ [nextWord window]) (round r k (window.headD 0))

def toWords : List UInt8 → List Word
  | a :: b :: c :: d :: rest =>
    BitVec.ofNat 32 (a.toNat * 2^24 + b.toNat * 2^16 + c.toNat * 2^8 + d.toNat) :: toWords rest
  | _ => []

def compress (block : List UInt8) (r : Registers) : Registers :=
  r.add (rounds roundConstants (toWords block) r)

def blocks : Nat → List UInt8 → Registers → Registers
  | 0, _, r => r
  | n + 1, bytes, r => blocks n (bytes.drop 64) (compress (bytes.take 64) r)

def pad (bytes : List UInt8) : List UInt8 :=
  let zeros : List UInt8 := List.replicate ((119 - bytes.length % 64) % 64) 0
  let bitLength : List UInt8 := (List.range 8).map fun i => UInt8.ofNat (bytes.length * 8 / 256 ^ (7 - i))
  bytes ++ [0x80] ++ zeros ++ bitLength

def digest (bytes : List UInt8) : Registers :=
  let padded := pad bytes
  blocks (padded.length / 64) padded initial

def hexDigit (n : Nat) : Char :=
  if n < 10 then Char.ofNat (48 + n) else Char.ofNat (87 + n)

def hexWord (w : Word) : List Char :=
  (List.range 8).map fun i => hexDigit (w.toNat / 16 ^ (7 - i) % 16)

@[irreducible] def hexSum (text : String) : String :=
  String.ofList ((digest text.toUTF8.toList).words.flatMap hexWord)

theorem hexWord_length (w : Word) : (hexWord w).length = 8 := by simp [hexWord]

theorem hexSum_length (text : String) : (hexSum text).length = 64 := by
  simp [hexSum, Registers.words, hexWord_length]

theorem hexDigit_mem (n : Nat) (small : n < 16) : hexDigit n ∈ "0123456789abcdef".toList := by
  revert n
  decide

theorem hexSum_digits (text : String) : ∀ c ∈ (hexSum text).toList, c ∈ "0123456789abcdef".toList := by
  intro c member
  rw [hexSum, String.toList_ofList] at member
  obtain ⟨w, -, inside⟩ := List.mem_flatMap.mp member
  obtain ⟨i, -, rfl⟩ := List.mem_map.mp inside
  exact hexDigit_mem _ (Nat.mod_lt _ (by decide))

theorem hexSum_ne_empty (text : String) : hexSum text ≠ "" := by
  intro empty
  have length := hexSum_length text
  rw [empty] at length
  exact absurd length (by decide)

example : hexSum "abc" = "ba7816bf8f01cfea414140de5dae2223b00361a396177a9cb410ff61f20015ad" := by
  decide +kernel

end Sha256
