import Mathlib.Algebra.GroupWithZero.Nat
import Offload.Proofs.Chunk.Splitting

namespace Offload.Chunker

variable {data : Bytes} {chunks : List Bytes}

theorem infoFrom_append (index offset : Nat) (done : List (Bytes × ChunkInfo)) (chunks : List Bytes) :
    infoFrom index offset done chunks = done.reverse ++ infoFrom index offset [] chunks := by
  induction chunks generalizing index offset done with
  | nil => simp [infoFrom]
  | cons chunk rest ih =>
    rw [infoFrom, ih, infoFrom, ih _ _ [_], List.reverse_cons, List.reverse_singleton,
      List.append_assoc]

theorem infoFrom_cons (index offset : Nat) (chunk : Bytes) (rest : List Bytes) :
    infoFrom index offset [] (chunk :: rest) =
      (chunk, ⟨index, offset, chunk.length, Digest.sha256Hex chunk⟩) ::
        infoFrom (index + 1) (offset + chunk.length) [] rest := by
  rw [infoFrom, infoFrom_append, List.reverse_singleton, List.singleton_append]

theorem infoFrom_getElem? (index offset : Nat) (chunks : List Bytes) (i : Nat) :
    (infoFrom index offset [] chunks)[i]? = chunks[i]?.map fun chunk =>
      (chunk, ⟨index + i, offset + (chunks.take i).flatten.length, chunk.length,
        Digest.sha256Hex chunk⟩) := by
  induction chunks generalizing index offset i with
  | nil => rfl
  | cons chunk rest ih =>
    rw [infoFrom_cons]
    cases i with
    | zero => rfl
    | succ i =>
      simp only [List.getElem?_cons_succ, ih, List.take_succ_cons, List.flatten_cons,
        List.length_append, Nat.add_assoc, Nat.add_comm 1 i]

theorem infoFrom_map {α : Type} {ofEntry : Bytes × ChunkInfo → α} {ofChunk : Bytes → α}
    (hsame : ∀ chunk index offset,
      ofEntry (chunk, ⟨index, offset, chunk.length, Digest.sha256Hex chunk⟩) = ofChunk chunk)
    (index offset : Nat) (chunks : List Bytes) :
    (infoFrom index offset [] chunks).map ofEntry = chunks.map ofChunk := by
  induction chunks generalizing index offset with
  | nil => rfl
  | cons chunk rest ih => rw [infoFrom_cons, List.map_cons, List.map_cons, hsame, ih]

def Adjoins (entry next : Bytes × ChunkInfo) : Prop := entry.2.offset + entry.2.size = next.2.offset

theorem infoFrom_adjoins (index offset : Nat) (chunks : List Bytes) :
    (infoFrom index offset [] chunks).IsChain Adjoins := by
  induction chunks generalizing index offset with
  | nil => exact .nil
  | cons chunk rest ih =>
    cases rest with
    | nil => exact .singleton _
    | cons next rest =>
      have hrest := ih (index + 1) (offset + chunk.length)
      rw [infoFrom_cons] at hrest ⊢
      rw [infoFrom_cons]
      exact .cons_cons rfl hrest

/-- The entry at an index describes its chunk and says where in the payload it lies: behind all the
earlier ones. -/
structure Describes (data : Bytes) (entries : List (Bytes × ChunkInfo)) (index : Nat) (chunk : Bytes)
    (info : ChunkInfo) : Prop where
  index_eq : info.index = index
  offset_eq : info.offset = ((entries.take index).map fun entry => entry.2.size).sum
  size_eq : info.size = chunk.length
  hash_eq : info.hash = Digest.sha256Hex chunk
  bytes_eq : data.extract info.offset (info.offset + info.size) = chunk

theorem extract_chunk {index : Nat} {chunk : Bytes} (hfront : chunks.flatten <+: data)
    (hchunk : chunks[index]? = some chunk) :
    data.extract (chunks.take index).flatten.length
      ((chunks.take index).flatten.length + chunk.length) = chunk := by
  obtain ⟨rest, rfl⟩ := hfront
  obtain ⟨hindex, rfl⟩ := List.getElem?_eq_some_iff.mp hchunk
  have hparts : chunks.flatten = (chunks.take index).flatten ++
      (chunks[index] ++ (chunks.drop (index + 1)).flatten) := by
    rw [← List.flatten_cons, List.getElem_cons_drop, ← List.flatten_append,
      List.take_append_drop]
  rw [hparts, List.extract_eq_take_drop, Nat.add_sub_cancel_left, List.append_assoc,
    List.drop_left, List.append_assoc, List.take_left]

theorem infoFrom_describes (hfront : chunks.flatten <+: data) {index : Nat} {chunk : Bytes}
    {info : ChunkInfo} (hentry : (infoFrom 0 0 [] chunks)[index]? = some (chunk, info)) :
    Describes data (infoFrom 0 0 [] chunks) index chunk info := by
  rw [infoFrom_getElem?, Option.map_eq_some_iff] at hentry
  obtain ⟨_, hchunk, hinfo⟩ := hentry
  cases hinfo
  have hsizes := @infoFrom_map _ (fun entry => entry.2.size) List.length (fun _ _ _ => rfl) 0 0 chunks
  refine ⟨Nat.zero_add _, ?_, rfl, rfl, ?_⟩
  · rw [List.length_flatten, List.map_take, List.map_take, hsizes]
    exact Nat.zero_add _
  · simp only [Nat.zero_add]
    exact extract_chunk hfront hchunk

/-- The places of the entries tile a payload from its front on. -/
structure Tiles (data : Bytes) (entries : List (Bytes × ChunkInfo)) : Prop where
  describes : ∀ index chunk info, entries[index]? = some (chunk, info) →
    Describes data entries index chunk info
  adjoining : entries.IsChain Adjoins
  increasing : entries.Pairwise fun entry later => entry.2.offset < later.2.offset

theorem infoFrom_fst (index offset : Nat) (chunks : List Bytes) :
    (infoFrom index offset [] chunks).map Prod.fst = chunks :=
  (infoFrom_map (fun _ _ _ => rfl) index offset chunks).trans (List.map_id chunks)

theorem infoFrom_tiles (hfront : chunks.flatten <+: data) (hnonempty : [] ∉ chunks) :
    Tiles data (infoFrom 0 0 [] chunks) := by
  have hdescribes : ∀ index chunk info, (infoFrom 0 0 [] chunks)[index]? = some (chunk, info) →
      Describes data (infoFrom 0 0 [] chunks) index chunk info :=
    fun _ _ _ hentry => infoFrom_describes hfront hentry
  have hadjoining := infoFrom_adjoins 0 0 chunks
  refine ⟨hdescribes, hadjoining, List.isChain_iff_pairwise.mp ?_⟩
  refine hadjoining.imp_of_mem_imp fun entry later hentry _ hadjoins => ?_
  have hchunk := List.mem_map_of_mem (f := Prod.fst) hentry
  rw [infoFrom_fst] at hchunk
  obtain ⟨index, hindex⟩ := List.mem_iff_getElem?.mp hentry
  have hsize := (hdescribes index entry.1 entry.2 hindex).size_eq
  have hpos := List.length_pos_iff.mpr (ne_of_mem_of_not_mem hchunk hnonempty)
  rw [Adjoins] at hadjoins
  omega

theorem piecesFrom_front {size : UInt64} (total offset : UInt64) (hsize : 0 < size) (done : List Bytes)
    (data : Bytes) :
    ∃ pieces, piecesFrom size total offset hsize done data = done.reverse ++ pieces ∧
      pieces.flatten <+: data ∧ [] ∉ pieces := by
  have hpos : 0 < size.toNat := UInt64.lt_iff_toNat_lt.mp hsize
  fun_induction piecesFrom size total offset hsize done data with
  | case1 offset done data hmore ih =>
    obtain ⟨pieces, hpieces, hfront, hnonempty⟩ := ih
    refine ⟨data.take size.toNat :: pieces, ?_, ?_, ?_⟩
    · rw [hpieces, List.reverse_cons, List.append_assoc, List.singleton_append]
    · obtain ⟨rest, hrest⟩ := hfront
      refine ⟨rest, ?_⟩
      rw [List.flatten_cons, List.append_assoc, hrest, List.take_append_drop]
    · rw [List.mem_cons, not_or]
      refine ⟨fun hnil => ?_, hnonempty⟩
      rcases List.take_eq_nil_iff.mp hnil.symm with hzero | hnil
      · exact hpos.ne' hzero
      · exact hmore.1 hnil
  | case2 offset done data hend =>
    exact ⟨[], (List.append_nil _).symm, List.nil_prefix, List.not_mem_nil⟩

/-- Whatever the strategy and the length, a payload begins with its chunks, none of which is empty. -/
theorem splitAs_front (chunker : Chunker) (strategy : Strategy) (data : Bytes) :
    (chunker.splitAs strategy data).flatten <+: data ∧ [] ∉ chunker.splitAs strategy data := by
  have hfixed : (chunker.splitFixed data).flatten <+: data ∧ [] ∉ chunker.splitFixed data := by
    obtain ⟨pieces, hpieces, hfront⟩ :=
      piecesFrom_front data.length.toUInt64 0 chunker.chunkSize_pos [] data
    rw [splitFixed, hpieces]
    exact hfront
  have hpacked {delimiter : Bytes} (hdelimiter : delimiter ≠ []) :
      (Packing.chunks chunker.chunkSize.toNat delimiter data).flatten <+: data ∧
        [] ∉ Packing.chunks chunker.chunkSize.toNat delimiter data := by
    have hwhole := Packing.chunks_flatten hdelimiter chunker.chunkSize.toNat data
    exact ⟨⟨[], (List.append_nil _).trans hwhole⟩, Packing.chunks_ne_nil hdelimiter _ data⟩
  have hlines := hpacked (List.cons_ne_nil newline [])
  cases strategy with
  | fixedSize => exact hfixed
  | lineBased => exact hlines
  | recordBased => exact hpacked chunker.delimiter_ne
  | adaptive =>
    rw [splitAs, splitAdaptive]
    split
    · exact hlines
    · exact hfixed

theorem infoFrom_ends {index offset : Nat} {entry : Bytes × ChunkInfo}
    (hentry : (infoFrom index offset [] chunks).getLast? = some entry) :
    entry.2.offset + entry.2.size = offset + chunks.flatten.length := by
  induction chunks generalizing index offset with
  | nil => cases hentry
  | cons chunk rest ih =>
    rw [infoFrom_cons] at hentry
    cases rest with
    | nil =>
      cases hentry
      rw [List.flatten_singleton]
      rfl
    | cons next rest =>
      rw [infoFrom_cons, List.getLast?_cons_cons, ← infoFrom_cons] at hentry
      rw [ih hentry, List.flatten_cons (l := chunk), List.length_append, Nat.add_assoc]

/-- The entries of a payload hold its chunks in order, and what is noted of these tiles the payload: each
entry has its index, the sum of all earlier sizes as its offset, the size and the hash of its chunk, and
the payload holds the chunk there. No place is left out between two entries and none is taken twice. At a
length that a byte string can have the last entry ends with the payload, and only an empty payload has no
entries. -/
theorem info_tiles_payload (chunker : Chunker) (data : Bytes) :
    (chunker.splitWithInfo data).map Prod.fst = chunker.split data ∧
      Tiles data (chunker.splitWithInfo data) ∧
      (data.length < 2 ^ 63 →
        (chunker.splitWithInfo data = [] ↔ data = []) ∧
        ∀ entry, (chunker.splitWithInfo data).getLast? = some entry →
          entry.2.offset + entry.2.size = data.length) := by
  obtain ⟨hfront, hnonempty⟩ := splitAs_front chunker chunker.strategy data
  have hchunks : (chunker.splitWithInfo data).map Prod.fst = chunker.split data :=
    infoFrom_fst 0 0 (chunker.split data)
  refine ⟨hchunks, infoFrom_tiles hfront hnonempty, fun hdata => ⟨?_, fun entry hentry => ?_⟩⟩
  · have hlossless := splitAs_lossless chunker chunker.strategy hdata
    rw [← List.map_eq_nil_iff (f := Prod.fst), hchunks]
    refine ⟨fun hnone => ?_, hlossless.none_of_empty⟩
    have hmerged := hlossless.merged
    rw [split] at hnone
    rw [hnone] at hmerged
    exact hmerged.symm
  · have hmerged : (chunker.split data).flatten = data :=
      (splitAs_lossless chunker chunker.strategy hdata).merged
    rw [infoFrom_ends hentry, hmerged, Nat.zero_add]

end Offload.Chunker
