import Gsc.Proofs.Deflate.Inflation

/-! # Streams of plain bytes

Bytes that are kept as they are, in blocks, make a stream of the format.
-/

namespace Gsc.Deflate

theorem bitsOf_storedBlock (last : Bool) (bytes : Bytes) :
    bitsOf (storedBlock last bytes)
      = last :: ([false, false] ++ (List.replicate 5 false ++ bitsOf (framed bytes))) := by
  have hflag : bitsOf [if last then 1 else 0] = last :: List.replicate 7 false := by
    cases last with
    | false => decide
    | true => decide
  rw [storedBlock, ← List.singleton_append, bitsOf_append, hflag]
  rfl

theorem block_framed {pos : Nat} (out : Bytes) {bytes : Bytes} (hpos : pos % 8 = 0)
    (hlength : bytes.length ≤ blockLimit) :
    Block (pos + 1) out ([false, false] ++ (List.replicate 5 false ++ bitsOf (framed bytes)))
      (out ++ bytes) :=
  .stored (by simp) (by simp; omega) hlength

theorem blocks_store {pos : Nat} (out bytes : Bytes) (hpos : pos % 8 = 0) :
    Blocks pos out (bitsOf (store bytes)) (out ++ bytes) := by
  fun_induction store bytes generalizing pos out with
  | case1 bytes h =>
      rw [bitsOf_storedBlock]
      exact .last (block_framed out hpos h)
  | case2 bytes h ih =>
      have hlength : (bytes.take blockLimit).length ≤ blockLimit := List.length_take_le _ _
      have hbytes : out ++ bytes = out ++ bytes.take blockLimit ++ bytes.drop blockLimit := by
        rw [List.append_assoc, List.take_append_drop]
      rw [bitsOf_append, bitsOf_storedBlock, hbytes]
      refine .more (block_framed out hpos hlength) (ih _ ?_)
      simp only [List.length_append, List.length_cons, List.length_nil, List.length_replicate,
        length_bitsOf]
      omega

theorem isStream_storedStream (bytes : Bytes) : IsStream bytes (storedStream bytes) := by
  have hheader : isHeader (0x78 : UInt8).toNat (0xda : UInt8).toNat = true := by decide
  have hdata : bitsOf (store bytes) = bitsOf (store bytes) ++ [] := (List.append_nil _).symm
  exact .intro hheader hdata (by decide) (blocks_store [] bytes rfl)

def Encoder.stored : Encoder := ⟨storedStream, isStream_storedStream⟩

end Gsc.Deflate
