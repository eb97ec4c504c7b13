import ModalGraph.Text.Quoted

/-!
# Fingerprints

The 64-bit fingerprint of a byte string after the XXH64 scheme with seed 0: blocks of 32 bytes run through four lanes, which are
then mixed together with the length and the bytes that are left.
-/

namespace ModalGraph.Fingerprint

def prime1 : UInt64 := 11400714785074694791

def prime2 : UInt64 := 14029467366897019727

def prime3 : UInt64 := 1609587929392839161

def prime4 : UInt64 := 9650029242287828579

def prime5 : UInt64 := 2870177450012600261

/-- Rotation to the left. -/
def rotate (x n : UInt64) : UInt64 :=
  (x <<< n) ||| (x >>> (64 - n))

/-- The number of some bytes, least significant first. -/
def word (bs : Bytes) : UInt64 :=
  bs.foldr (fun b n => n <<< 8 ||| b.toUInt64) 0

/-- One step of a lane. -/
def round (acc lane : UInt64) : UInt64 :=
  rotate (acc + lane * prime2) 31 * prime1

/-- The four lanes. -/
structure Lanes where
  v1 : UInt64
  v2 : UInt64
  v3 : UInt64
  v4 : UInt64

/-- The lanes before the first block. -/
def Lanes.start : Lanes :=
  ⟨prime1 + prime2, prime2, 0, 0 - prime1⟩

/-- The lanes after a block of 32 bytes. -/
def Lanes.block (l : Lanes) (bs : Bytes) : Lanes :=
  ⟨round l.v1 (word (bs.take 8)), round l.v2 (word ((bs.drop 8).take 8)), round l.v3 (word ((bs.drop 16).take 8)),
    round l.v4 (word ((bs.drop 24).take 8))⟩

/-- One lane mixed in. -/
def mergeLane (h v : UInt64) : UInt64 :=
  (h ^^^ round 0 v) * prime1 + prime4

/-- All lanes in one number. -/
def Lanes.merge (l : Lanes) : UInt64 :=
  let h := rotate l.v1 1 + rotate l.v2 7 + rotate l.v3 12 + rotate l.v4 18
  mergeLane (mergeLane (mergeLane (mergeLane h l.v1) l.v2) l.v3) l.v4

/-- The lanes after all whole blocks. -/
def blocks (l : Lanes) (bs : Bytes) : Lanes :=
  if _h : 32 ≤ bs.length then blocks (l.block (bs.take 32)) (bs.drop 32) else l
termination_by bs.length
decreasing_by simp; omega

/-- The bytes that are left after the blocks, mixed in by eight, then four, then one. -/
def tail (h : UInt64) (bs : Bytes) : UInt64 :=
  if _h8 : 8 ≤ bs.length then
    tail (rotate (h ^^^ round 0 (word (bs.take 8))) 27 * prime1 + prime4) (bs.drop 8)
  else if _h4 : 4 ≤ bs.length then
    tail (rotate (h ^^^ (word (bs.take 4) * prime1)) 23 * prime2 + prime3) (bs.drop 4)
  else
    bs.foldl (fun h b => rotate (h ^^^ (b.toUInt64 * prime5)) 11 * prime1) h
termination_by bs.length
decreasing_by all_goals (simp; omega)

/-- The last mixing. -/
def avalanche (h : UInt64) : UInt64 :=
  let h := (h ^^^ (h >>> 33)) * prime2
  let h := (h ^^^ (h >>> 29)) * prime3
  h ^^^ (h >>> 32)

/-- The fingerprint of a byte string. -/
def of (bs : Bytes) : UInt64 :=
  let n := bs.length
  let h := if 32 ≤ n then (blocks .start bs).merge else prime5
  avalanche (tail (h + n.toUInt64) (bs.drop (n / 32 * 32)))

/-- The sixteen hexadecimal digits of a fingerprint. -/
def text (bs : Bytes) : String :=
  String.ofList (Text.hexDigits 16 (of bs).toNat)

end ModalGraph.Fingerprint
