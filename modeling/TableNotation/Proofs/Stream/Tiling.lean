import Mathlib.Algebra.Order.Floor.Div
import TableNotation.Proofs.Stream.Prefixes
/-!
# The chunks of a stream tile the table

Each call takes one chunk until none is ahead, and every later call finds none again.  So the state
behind so many calls is known, and with it each answer: the chunk of a number holds the records
between two multiples of the size of a chunk, the last one those up to the end of the table.

The numbers of a stream are kept in words.  A call in words has no result where a number outgrows
its word, or where the bounds of a chunk do not cut the table; with fewer than `2 ^ 63` records this
never happens, since behind the first chunk the size of a chunk is less than the number of records.

* `after_eq`, `call_after`: the state behind so many calls, by induction on the calls, and the
  answer to the next one.
* `lt_total_iff`: a chunk is there if a record is left for it.
* `callInWords?_eq`, `isTile_chunk`: a call in words, and the chunk of a number.
* `ofDocument_tiles`: all answers of the stream of a table.
-/

namespace TableNotation

/-- A number as a word of 64 bits; a number that needs more bits is none. -/
def asWord? (n : Nat) : Option Nat := if n < 2 ^ 64 then some n else none

theorem asWord?_of_lt {n : Nat} (h : n < 2 ^ 64) : asWord? n = some n := if_pos h

namespace ChunkStream

/-- The answer to a call for the next chunk, and the stream behind the call.  A stream without
further chunks stays as it is. -/
def call (stream : ChunkStream) : Option Chunk × ChunkStream :=
  match stream.next? with
  | some (chunk, rest) => (some chunk, rest)
  | none => (none, stream)

/-- The stream behind so many calls. -/
def after (stream : ChunkStream) : Nat → ChunkStream
  | 0 => stream
  | calls + 1 => (stream.after calls).call.2

/-- The number of chunks in words: one more than the quotient if there is a remainder. -/
def totalInWords? (stream : ChunkStream) : Option Nat :=
  let whole := stream.records.length / stream.chunkSize
  if stream.records.length % stream.chunkSize = 0 then asWord? whole else asWord? (whole + 1)

/-- The bounds of a chunk in words.  There are none if a product or a sum outgrows its word, or if
the records cannot be cut at the bounds. -/
def boundsInWords? (stream : ChunkStream) (index : Nat) : Option (Nat × Nat) := do
  let first ← asWord? (index * stream.chunkSize)
  let sum ← asWord? (first + stream.chunkSize)
  let last := min sum stream.records.length
  if first ≤ last ∧ last ≤ stream.records.length then some (first, last) else none

/-- A call whose numbers are words. -/
def callInWords? (stream : ChunkStream) : Option (Option Chunk × ChunkStream) := do
  let total ← stream.totalInWords?
  if stream.done < total then
    let (first, last) ← stream.boundsInWords? stream.done
    let done ← asWord? (stream.done + 1)
    some (some { stream.chunk stream.done with total, first, last }, { stream with done })
  else some (none, stream)

/-- The number of chunks ahead in words: there is none if more chunks are written than there are. -/
def remainingInWords? (stream : ChunkStream) : Option Nat := do
  let total ← stream.totalInWords?
  if stream.done ≤ total then some (total - stream.done) else none

variable {stream : ChunkStream} {index : Nat}

/-! ### Calls -/

theorem call_of_lt (h : stream.done < stream.total) :
    stream.call = (some (stream.chunk stream.done), { stream with done := stream.done + 1 }) := by
  rw [call, next?, if_pos h]

theorem call_of_le (h : stream.total ≤ stream.done) : stream.call = (none, stream) := by
  rw [call, next?, if_neg (Nat.not_lt.2 h)]

/-- Calls count the chunks up to the last one, and change nothing else. -/
theorem after_eq (stream : ChunkStream) (h : stream.done ≤ stream.total) (calls : Nat) :
    stream.after calls = { stream with done := min (stream.done + calls) stream.total } := by
  induction calls with
  | zero => rw [after, Nat.add_zero, Nat.min_eq_left h]
  | succ calls ih =>
    rw [after, ih]
    by_cases hmore : stream.done + calls < stream.total
    · have hdone : min (stream.done + calls) stream.total < stream.total := by omega
      rw [@call_of_lt { stream with done := min (stream.done + calls) stream.total } hdone]
      simp only [ChunkStream.mk.injEq, true_and]
      omega
    · have hall : min (stream.done + calls) stream.total = stream.total :=
        Nat.min_eq_right (Nat.not_lt.1 hmore)
      rw [hall, call_of_le (Nat.le_refl stream.total)]
      simp only [ChunkStream.mk.injEq, true_and]
      omega

/-- From its start on a stream has as many chunks written as there were calls, up to the last. -/
theorem after_start (hstart : stream.done = 0) (calls : Nat) :
    stream.after calls = { stream with done := min calls stream.total } := by
  rw [after_eq stream (by omega), hstart, Nat.zero_add]

/-- The answer to the next call is the chunk of the number of calls before it, or none. -/
theorem call_after (hstart : stream.done = 0) (calls : Nat) : (stream.after calls).call.1
    = if calls < stream.total then some (stream.chunk calls) else none := by
  rw [after_start hstart]
  by_cases hmore : calls < stream.total
  · rw [if_pos hmore, Nat.min_eq_left (Nat.le_of_lt hmore)]
    exact congrArg Prod.fst (call_of_lt hmore)
  · rw [if_neg hmore, Nat.min_eq_right (Nat.not_lt.1 hmore)]
    exact congrArg Prod.fst (call_of_le (Nat.le_refl stream.total))

theorem remaining_after (hstart : stream.done = 0) (calls : Nat) :
    (stream.after calls).remaining = stream.total - calls := by
  have hremaining : ({ stream with done := min calls stream.total } : ChunkStream).remaining
      = stream.total - min calls stream.total := rfl
  rw [after_start hstart, hremaining]
  omega

/-! ### Bounds -/

theorem first_chunk (stream : ChunkStream) (index : Nat) :
    (stream.chunk index).first = index * stream.chunkSize := rfl

theorem last_chunk (stream : ChunkStream) (index : Nat) : (stream.chunk index).last
    = min (index * stream.chunkSize + stream.chunkSize) stream.records.length := rfl

/-- A chunk is there if a record is left for it. -/
theorem lt_total_iff :
    index < stream.total ↔ index * stream.chunkSize < stream.records.length := by
  have hpos := stream.chunkSize_pos
  rw [total, Nat.lt_iff_add_one_le, Nat.le_div_iff_mul_le hpos, Nat.succ_mul]
  omega

theorem total_le_length (stream : ChunkStream) : stream.total ≤ stream.records.length := by
  by_contra hlt
  have hfirst := lt_total_iff.1 (Nat.not_le.1 hlt)
  have hone := Nat.mul_le_mul_left stream.records.length stream.chunkSize_pos
  omega

/-- There are as many chunks as the records fill, the last one perhaps in part. -/
theorem total_eq_ceilDiv (stream : ChunkStream) :
    stream.total = stream.records.length ⌈/⌉ stream.chunkSize := by
  rw [Nat.ceilDiv_eq_add_pred_div, total, Nat.add_sub_assoc stream.chunkSize_pos]

/-- Each chunk begins where the one before it ended. -/
theorem first_chunk_succ (h : index + 1 < stream.total) :
    (stream.chunk (index + 1)).first = (stream.chunk index).last := by
  have hfirst := lt_total_iff.1 h
  rw [Nat.succ_mul] at hfirst
  rw [first_chunk, last_chunk, Nat.succ_mul]
  omega

/-! ### Words -/

/-- The number of chunks is a word if the number of records is one. -/
theorem totalInWords?_eq (hlength : stream.records.length < 2 ^ 64) :
    stream.totalInWords? = some stream.total := by
  have hpos := stream.chunkSize_pos
  have htotal := total_le_length stream
  have hdivision := Nat.div_add_mod' stream.records.length stream.chunkSize
  have hrest := Nat.mod_lt stream.records.length hpos
  have hwhole : (if stream.records.length % stream.chunkSize = 0
      then stream.records.length / stream.chunkSize
      else stream.records.length / stream.chunkSize + 1) = stream.total := by
    symm
    apply Nat.div_eq_of_lt_le
    · split
      · omega
      · rw [Nat.succ_mul]
        omega
    · rw [Nat.succ_mul]
      split
      · omega
      · rw [Nat.succ_mul]
        omega
  unfold totalInWords?
  rw [← apply_ite, hwhole]
  exact asWord?_of_lt (by omega)

/-- No product and no sum outgrows its word, and the records are cut where there are records. -/
theorem boundsInWords?_eq (hlength : stream.records.length < 2 ^ 63)
    (hsize : stream.chunkSize < 2 ^ 64) (h : index < stream.total) :
    stream.boundsInWords? index
      = some ((stream.chunk index).first, (stream.chunk index).last) := by
  have hfirst := lt_total_iff.1 h
  -- behind the first chunk the size of a chunk is less than the number of records
  have hsum : index * stream.chunkSize + stream.chunkSize < 2 ^ 64 := by
    by_cases hzero : index = 0
    · rw [hzero, Nat.zero_mul]
      omega
    · have hlarge : stream.chunkSize ≤ index * stream.chunkSize :=
        Nat.le_mul_of_pos_left _ (Nat.pos_of_ne_zero hzero)
      omega
  have hword : index * stream.chunkSize < 2 ^ 64 := by omega
  unfold boundsInWords?
  simp only [asWord?_of_lt hword, asWord?_of_lt hsum, Option.bind_eq_bind, Option.bind_some]
  rw [if_pos (by omega)]
  rfl

/-- A call in words has the answer of a call. -/
theorem callInWords?_eq (hlength : stream.records.length < 2 ^ 63)
    (hsize : stream.chunkSize < 2 ^ 64) : stream.callInWords? = some stream.call := by
  have htotal : stream.totalInWords? = some stream.total := totalInWords?_eq (by omega)
  have hbound := total_le_length stream
  unfold callInWords?
  rw [htotal, Option.bind_eq_bind, Option.bind_some]
  by_cases hmore : stream.done < stream.total
  · have hdone : stream.done + 1 < 2 ^ 64 := by omega
    rw [if_pos hmore, call_of_lt hmore, boundsInWords?_eq hlength hsize hmore, asWord?_of_lt hdone]
    rfl
  · rw [if_neg hmore, call_of_le (Nat.not_lt.1 hmore)]

theorem remainingInWords?_eq (hlength : stream.records.length < 2 ^ 64)
    (hdone : stream.done ≤ stream.total) :
    stream.remainingInWords? = some stream.remaining := by
  unfold remainingInWords?
  rw [totalInWords?_eq hlength, Option.bind_eq_bind, Option.bind_some, if_pos hdone]
  rfl

/-- Behind any calls the next call in words has its answer, and the chunks ahead are counted. -/
theorem inWords_after (hstart : stream.done = 0) (hlength : stream.records.length < 2 ^ 63)
    (hsize : stream.chunkSize < 2 ^ 64) (calls : Nat) :
    (stream.after calls).callInWords? = some (stream.after calls).call ∧
      (stream.after calls).remainingInWords? = some (stream.after calls).remaining := by
  rw [after_start hstart]
  exact ⟨callInWords?_eq hlength hsize,
    remainingInWords?_eq (Nat.lt_trans hlength (by decide)) (Nat.min_le_right _ _)⟩

/-! ### Tiles -/

/-- What the chunk of a number has to be in a table that is cut into chunks of so many records. -/
structure IsTile (table : String) (layout : Layout) (records : List Record)
    (chunkSize index : Nat) (chunk : Chunk) : Prop where
  index_eq : chunk.index = index
  first_eq : chunk.first = index * chunkSize
  last_eq : chunk.last = min ((index + 1) * chunkSize) records.length
  first_lt_last : chunk.first < chunk.last
  isFirst_iff : chunk.isFirst = true ↔ index = 0
  isLast_iff : chunk.isLast = true ↔ chunk.last = records.length
  size_eq : chunk.size = chunk.last - chunk.first
  /-- The header counts the records of the chunk, which are written below it. -/
  data_eq : chunk.data = Text.joined ['\n']
    ((if index = 0 then Encoding.layoutLines .empty layout else []) ++
      [] :: Header.render ⟨table, chunk.size, index != 0⟩ ::
        Encoding.rowLines .empty layout ((records.take chunk.last).drop chunk.first))
  length_eq : ((records.take chunk.last).drop chunk.first).length = chunk.size

/-- Each chunk is a tile. -/
theorem isTile_chunk (h : index < stream.total) :
    IsTile stream.table stream.layout stream.records stream.chunkSize index
      (stream.chunk index) := by
  have hpos := stream.chunkSize_pos
  have hfirst := lt_total_iff.1 h
  have hnext : index + 1 < stream.total ↔
      index * stream.chunkSize + stream.chunkSize < stream.records.length := by
    rw [lt_total_iff, Nat.succ_mul]
  have hlast := last_chunk stream index
  have hlength : ((stream.records.take (stream.chunk index).last).drop
      (stream.chunk index).first).length = (stream.chunk index).size := by
    rw [List.length_drop, List.length_take, hlast, Nat.min_eq_left (Nat.min_le_right _ _)]
    rfl
  refine ⟨rfl, rfl, ?_, ?_, ?_, ?_, rfl, ?_, hlength⟩
  · rw [hlast, Nat.succ_mul]
  · rw [first_chunk, hlast]
    omega
  · exact decide_eq_true_iff
  · have hisLast : (stream.chunk index).isLast = decide (index + 1 = stream.total) := rfl
    rw [hisLast, decide_eq_true_iff, hlast]
    omega
  · rw [← hlength]
    rfl

/-- The stream of a table with fewer than `2 ^ 63` records, in chunks of any size that is a word.
There are as many chunks as the records fill; so many calls have them as their answers, one after
the other, and each further call finds none.  Behind each call the chunks that are ahead are
counted, and all numbers are words.  The chunk of a number is a tile of the table, and each begins
where the one before it ended. -/
theorem ofDocument_tiles {document : Document} {table : Option String} {name : String}
    {records : List Record} {chunkSize : Nat}
    (hselect : selectTable document table = .ok (name, .array (records.map .object)))
    (hlength : records.length < 2 ^ 63) (hsize : chunkSize < 2 ^ 64) (optimize : Bool)
    (hpos : 0 < chunkSize) :
    ∃ stream, ofDocument optimize chunkSize hpos document table = .ok stream ∧
      stream.total = records.length ⌈/⌉ chunkSize ∧
      (∀ calls, (stream.after calls).call.1
        = if calls < stream.total then some (stream.chunk calls) else none) ∧
      (∀ calls, (stream.after calls).remaining = stream.total - calls) ∧
      (∀ calls, (stream.after calls).callInWords? = some (stream.after calls).call ∧
        (stream.after calls).remainingInWords? = some (stream.after calls).remaining) ∧
      (∀ index < stream.total, IsTile name (Layout.infer optimize records) records chunkSize index
        (stream.chunk index)) ∧
      ∀ index, index + 1 < stream.total →
        (stream.chunk (index + 1)).first = (stream.chunk index).last := by
  let stream : ChunkStream := ⟨name, records, Layout.infer optimize records, chunkSize, hpos, 0⟩
  have hstart : stream.done = 0 := rfl
  exact ⟨stream, ofDocument_of_selectTable hselect optimize hpos, total_eq_ceilDiv stream,
    call_after hstart, remaining_after hstart, inWords_after hstart hlength hsize,
    fun _ h => isTile_chunk h, fun _ h => first_chunk_succ h⟩

/-- Three records in chunks as long as a word can say: there is one chunk, and it holds them all. -/
theorem ofDocument_tiles_sample :
    selectTable Document.sample (some "log")
        = .ok ("log", .array (Document.sampleRecords.map .object)) ∧
      Document.sampleRecords.length < 2 ^ 63 ∧
      ∃ stream, ofDocument true (2 ^ 64 - 1) (by decide) Document.sample (some "log")
          = .ok stream ∧
        stream.total = 1 ∧ (stream.chunk 0).last = 3 ∧ (stream.chunk 0).isLast = true ∧
        stream.callInWords? = some (some (stream.chunk 0), stream.after 1) ∧
        (stream.after 1).call.1 = none ∧ (stream.after 1).remaining = 0 := by
  have hselect : selectTable Document.sample (some "log")
      = .ok ("log", .array (Document.sampleRecords.map .object)) := by rfl
  have hlength : Document.sampleRecords.length < 2 ^ 63 := by decide
  have hpos : 0 < 2 ^ 64 - 1 := by decide
  obtain ⟨stream, hfound, htotal, hanswers, hremaining, hwords, htiles, _⟩ :=
    ofDocument_tiles hselect hlength (by decide) true hpos
  have hone : stream.total = 1 := by
    rw [htotal, Nat.ceilDiv_eq_add_pred_div]
    decide
  have htile := htiles 0 (by omega)
  have hlast : (stream.chunk 0).last = 3 := by
    rw [htile.last_eq]
    decide
  have hfirst : stream.call.1 = some (stream.chunk 0) := by
    have hanswer := hanswers 0
    rw [if_pos (by omega)] at hanswer
    exact hanswer
  refine ⟨hselect, hlength, stream, hfound, hone, hlast, htile.isLast_iff.2 hlast, ?_, ?_, ?_⟩
  · rw [← hfirst]
    exact (hwords 0).1
  · rw [hanswers, if_neg (by omega)]
  · rw [hremaining, hone]

end ChunkStream
end TableNotation
