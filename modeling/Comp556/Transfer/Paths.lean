import Comp556.Foundation.Strtok
import Comp556.Transfer.Packet

/-!
# The path of the file

How `sendfile` finds the two names in its argument and what `recvfile` makes of them. The names
travel in fields of 50 and 20 bytes, copied from memory and read back as C strings.
-/

namespace Comp556.Transfer

/-- The bytes copied for the two names, when the argument has been cut up to `text`. What lies in
memory after it is copied too. -/
def namesAt (text : List UInt8) (after : Memory) (subdir fileName : Nat) : Names where
  subdir := ⟨(after.store 0 text).load subdir 50, Memory.load_length _ _ _⟩
  fileName := ⟨(after.store 0 text).load fileName 20, Memory.load_length _ _ _⟩

/-- What lies behind the places that the two programs write and read over the end of: 8 bytes for a copy
of the path, two arrays of 50 and 20 bytes for the names, and a block for the path that is one byte short. -/
structure Behind where
  /-- How many bytes behind `sendfile` nothing needs any more. -/
  sendfile : Nat
  /-- The bytes behind `subdir` up to a zero. -/
  subdir : List UInt8
  /-- The bytes behind `fileName` up to a zero. -/
  fileName : List UInt8
  /-- How many bytes behind the block of `path` nothing needs. -/
  path : Nat

/-- The copy of the path and the two calls of `strtok`; nothing when the copy overwrites what is still
needed, or a call finds no token. -/
def argumentNames (behind : Behind) (path : List UInt8) (after : Memory) : Option Names :=
  if 8 + behind.sendfile < path.length + 1 then none
  else
    match strtok 0x2F (path ++ [0]) 0 with
    | none => none
    | some subdir =>
      match strtok 0x2F subdir.text subdir.next with
      | none => none
      | some fileName => some (namesAt fileName.text after subdir.start fileName.start)

/-- `dir/name.recv`. -/
def recvName (dir name : List UInt8) : List UInt8 :=
  dir ++ [0x2F] ++ name ++ [0x2E, 0x72, 0x65, 0x63, 0x76]

/-- The path that `recvfile` opens, nothing when `sprintf` overwrites what is still needed. A name
without a zero in its array goes on behind it. -/
def openedPath (behind : Behind) (buffer : Memory) : Option (List UInt8) :=
  let subdir := cString (buffer.load 4 50 ++ behind.subdir)
  let fileName := cString (buffer.load 54 20 ++ behind.fileName)
  let path := recvName subdir fileName
  if 6 + subdir.length + fileName.length + behind.path < path.length + 1 then none else some path

/-- `recvfile` accepts the packet and finds in it what `sendfile` was given. -/
structure ReadsBack (behind : Behind) (dir name : List UInt8) (seqNum : Int) (chunk : List UInt8)
    (buffer : Memory) : Prop where
  crc : crcReceived buffer = crcCalculated buffer
  seqNum : charValue (seqNumReceived buffer) = seqNum
  length : dataLen buffer = chunk.length
  data : recvData buffer = chunk
  path : openedPath behind buffer = some (recvName dir name)

private theorem load_string (m : Memory) {text s rest : List UInt8} {start : Nat}
    (htext : text.drop start = s ++ 0 :: rest) (width : Nat) :
    (m.store 0 text).load start width =
      if width ≤ s.length then s.take width
      else s ++ 0 :: (m.store 0 text).load (start + (s.length + 1)) (width - (s.length + 1)) := by
  have hlength : s.length + 1 ≤ (text.drop start).length := by
    rw [htext]
    simp
  rw [List.length_drop] at hlength
  have hinside (n : Nat) (hn : n ≤ s.length + 1) :
      (m.store 0 text).load start n = (s ++ 0 :: rest).take n := by
    have h : (m.store 0 text).load (0 + start) n = _ := m.load_store_inside (by omega)
    rwa [Nat.zero_add, htext] at h
  by_cases hwidth : width ≤ s.length
  · rw [if_pos hwidth, hinside width (by omega), List.take_append_of_le_length hwidth]
  · rw [if_neg hwidth]
    obtain ⟨more, rfl⟩ := Nat.exists_eq_add_of_le (show s.length + 1 ≤ width by omega)
    rw [Memory.load_add, hinside _ (Nat.le_refl _), Nat.add_sub_cancel_left, List.take_append,
      List.take_of_length_le (Nat.le_succ _)]
    simp

private theorem cString_append {s : List UInt8} (hs : 0 ∉ s) (rest : List UInt8) :
    cString (s ++ rest) = s ++ cString rest := by
  have hinside : ∀ c ∈ s, c ≠ 0 := by
    intro c hc hzero
    exact hs (hzero ▸ hc)
  rw [cString, cString, List.takeWhile_append_of_pos (by simpa using hinside)]

private theorem field_cString (m : Memory) {text s rest : List UInt8} {start : Nat}
    (htext : text.drop start = s ++ 0 :: rest) (hs : 0 ∉ s) (width : Nat) (behind : List UInt8) :
    cString ((m.store 0 text).load start width ++ behind) =
      if width ≤ s.length then s.take width ++ cString behind else s := by
  rw [load_string m htext]
  split
  case isTrue hwide => exact cString_append (fun hmem => hs (List.mem_of_mem_take hmem)) behind
  case isFalse hwide =>
    rw [List.append_assoc, cString_append hs, List.cons_append]
    simp [cString]

private theorem field_eq_iff (s : List UInt8) (width : Nat) (more : List UInt8) :
    (if width ≤ s.length then s.take width ++ more else s) = s ↔ s.length < width ∨ more = s.drop width := by
  split
  case isTrue hwide =>
    rw [or_iff_right (Nat.not_lt.mpr hwide)]
    nth_rewrite 2 [← List.take_append_drop width s]
    exact List.append_right_inj _
  case isFalse hwide => exact iff_of_true rfl (.inl (Nat.not_le.mp hwide))

variable {dir name : List UInt8}

def pathNames (dir name : List UInt8) (after : Memory) : Names :=
  namesAt (dir ++ 0 :: (name ++ [0])) after 0 (dir.length + 1)

private theorem argumentNames_eq (hdir : IsToken 0x2F dir) (hname : IsToken 0x2F name) (behind : Behind)
    (after : Memory) :
    argumentNames behind (dir ++ [0x2F] ++ name) after =
      if dir.length + name.length + 2 ≤ 8 + behind.sendfile then some (pathNames dir name after) else none := by
  have hfirst : strtok 0x2F (dir ++ [0x2F] ++ name ++ [0]) 0 =
      some ⟨0, dir ++ 0 :: (name ++ [0]), dir.length + 1⟩ := by
    have h := hdir.strtok_eq [] (name ++ [0]) (.inl rfl)
    simpa using h
  have hsecond : strtok 0x2F (dir ++ 0 :: (name ++ [0])) (dir.length + 1) =
      some ⟨dir.length + 1, dir ++ 0 :: (name ++ [0]), dir.length + 1 + name.length⟩ := by
    have h := hname.strtok_eq (dir ++ [0]) [] (.inr rfl)
    simpa using h
  have hlength : (dir ++ [0x2F] ++ name).length + 1 = dir.length + name.length + 2 := by
    simp only [List.length_append, List.length_singleton]
    omega
  simp only [argumentNames, hfirst, hsecond, hlength, pathNames]
  by_cases hroom : dir.length + name.length + 2 ≤ 8 + behind.sendfile
  · rw [if_neg (Nat.not_lt.mpr hroom), if_pos hroom]
  · rw [if_pos (Nat.not_le.mp hroom), if_neg hroom]

private theorem token_no_zero {s : List UInt8} (hs : IsToken 0x2F s) : 0 ∉ s :=
  fun hmem => (hs.inside 0 hmem).2 rfl

private theorem token_no_slash {s : List UInt8} (hs : IsToken 0x2F s) : 0x2F ∉ s :=
  fun hmem => (hs.inside 0x2F hmem).1 rfl

private theorem drop_dir (dir name : List UInt8) :
    (dir ++ 0 :: (name ++ [0])).drop (dir.length + 1) = name ++ 0 :: [] := by
  simp [List.drop_append]

private theorem recvName_eq_iff (hdir : IsToken 0x2F dir) (hname : IsToken 0x2F name) (d n : List UInt8) :
    recvName d n = recvName dir name ↔ d = dir ∧ n = name := by
  constructor
  · intro heq
    have hcut : d ++ 0x2F :: n = dir ++ 0x2F :: name := by
      have h := List.append_cancel_right heq
      simpa using h
    rcases List.append_eq_append_iff.mp hcut with ⟨more, hmore, hrest⟩ | ⟨more, hmore, hrest⟩
    · cases more with
      | nil => exact ⟨by simpa using hmore.symm, (List.cons.inj hrest).2⟩
      | cons c more =>
        obtain ⟨rfl, -⟩ := List.cons.inj hrest
        exact absurd (hmore ▸ by simp) (token_no_slash hdir)
    · cases more with
      | nil => exact ⟨by simpa using hmore, (List.cons.inj hrest).2.symm⟩
      | cons c more =>
        obtain ⟨-, hname'⟩ := List.cons.inj hrest
        exact absurd (hname' ▸ by simp) (token_no_slash hname)
  · rintro ⟨rfl, rfl⟩
    rfl

private theorem openedPath_packetMessage (hdir : IsToken 0x2F dir) (hname : IsToken 0x2F name) (behind : Behind)
    (after : Memory) (seqNum : Int) (length : Nat) (data : Block dataSize) :
    openedPath behind (recvBuffer (packetMessage seqNum length (pathNames dir name after) data)) =
        some (recvName dir name) ↔
      1 ≤ behind.path ∧ (dir.length ≤ 49 ∨ cString behind.subdir = dir.drop 50) ∧
        (name.length ≤ 19 ∨ cString behind.fileName = name.drop 20) := by
  have hsubdir : (dir ++ 0 :: (name ++ [0])).drop 0 = dir ++ 0 :: (name ++ [0]) := rfl
  have hroom (d n : List UInt8) : 6 + d.length + n.length + behind.path < (recvName d n).length + 1 ↔
      ¬ 1 ≤ behind.path := by
    simp only [recvName, List.length_append, List.length_cons, List.length_nil]
    omega
  simp only [openedPath, subdir_packetMessage, fileName_packetMessage, pathNames, namesAt, hroom]
  rw [field_cString after hsubdir (token_no_zero hdir),
    field_cString after (drop_dir dir name) (token_no_zero hname)]
  by_cases hfree : 1 ≤ behind.path
  · rw [if_neg (not_not.mpr hfree), Option.some.injEq, recvName_eq_iff hdir hname, field_eq_iff, field_eq_iff,
      and_iff_right hfree, Nat.lt_succ_iff, Nat.lt_succ_iff]
  · simp [hfree]

private theorem readsBack_iff (hdir : IsToken 0x2F dir) (hname : IsToken 0x2F name) (behind : Behind)
    (after : Memory) {seqNum : Int} (hlow : 0 ≤ seqNum) (hhigh : seqNum ≤ 127) {chunk : List UInt8}
    (hfits : chunk.length ≤ dataSize) (old : Block dataSize) :
    ReadsBack behind dir name seqNum chunk
        (recvBuffer (packetMessage seqNum chunk.length (pathNames dir name after) (old.overwrite chunk))) ↔
      1 ≤ behind.path ∧ (dir.length ≤ 49 ∨ cString behind.subdir = dir.drop 50) ∧
        (name.length ≤ 19 ∨ cString behind.fileName = name.drop 20) := by
  rw [← openedPath_packetMessage hdir hname behind after seqNum chunk.length (old.overwrite chunk)]
  constructor
  · exact fun h => h.path
  · intro hpath
    constructor
    · exact crc_packetMessage _ _ _ _
    · rw [seqNumReceived_packetMessage, charValue_charOf (by omega) (by omega)]
    · exact dataLen_packetMessage _ _ _ _ hfits
    · rw [recvData_packetMessage _ _ _ _ hfits, Block.overwrite_take _ hfits]
    · exact hpath

/-- Whatever lies in memory after the argument and in the rest of the data, the packet of a chunk is built,
accepted and read back with its number, its data and the path of its file if and only if what is written
over the end of its place is not needed, and each name fits into its field with its zero or goes on behind
the array as it should. -/
theorem dataPacket_roundTrip_iff (hdir : IsToken 0x2F dir) (hname : IsToken 0x2F name) (behind : Behind)
    (after : Memory) {seqNum : Int} (hlow : 0 ≤ seqNum) (hhigh : seqNum ≤ 127) {chunk : List UInt8}
    (hfits : chunk.length ≤ dataSize) (old : Block dataSize) :
    (∃ names, argumentNames behind (dir ++ [0x2F] ++ name) after = some names ∧
        ReadsBack behind dir name seqNum chunk
          (recvBuffer (packetMessage seqNum chunk.length names (old.overwrite chunk)))) ↔
      dir.length + name.length + 2 ≤ 8 + behind.sendfile ∧ 1 ≤ behind.path ∧
        (dir.length ≤ 49 ∨ cString behind.subdir = dir.drop 50) ∧
        (name.length ≤ 19 ∨ cString behind.fileName = name.drop 20) := by
  rw [argumentNames_eq hdir hname, ← readsBack_iff hdir hname behind after hlow hhigh hfits old]
  by_cases hroom : dir.length + name.length + 2 ≤ 8 + behind.sendfile
  · simp [hroom]
  · simp [hroom]

/-- The letter `a`, a number of times. -/
def letters (n : Nat) : List UInt8 := List.replicate n 0x61

private theorem letters_token {n : Nat} (hn : n ≠ 0) : IsToken 0x2F (letters n) where
  nonempty := by simp [letters, hn]
  inside := by
    intro c hc
    rw [List.eq_of_mem_replicate hc]
    decide

theorem longestNames_roundTrip : ∃ names,
    argumentNames ⟨62, [], [], 1⟩ (letters 49 ++ [0x2F] ++ letters 19) (fun _ => 1) = some names ∧
      ReadsBack ⟨62, [], [], 1⟩ (letters 49) (letters 19) 127 [1, 0, 2]
        (recvBuffer (packetMessage 127 3 names ((Block.zeros dataSize).overwrite [1, 0, 2]))) := by
  have hroundTrip := dataPacket_roundTrip_iff (letters_token (n := 49) (by decide))
    (letters_token (n := 19) (by decide)) ⟨62, [], [], 1⟩ (fun _ => 1) (show (0 : Int) ≤ 127 by decide)
    (by decide) (show ([1, 0, 2] : List UInt8).length ≤ dataSize by decide) (Block.zeros dataSize)
  exact hroundTrip.mpr (by decide)

/-- The last of 21 characters is not sent, and a zero lies where it would have to be. -/
theorem longName_lost : ∃ names,
    argumentNames ⟨16, [], [], 1⟩ (letters 1 ++ [0x2F] ++ letters 21) (fun _ => 0) = some names ∧
      ¬ ReadsBack ⟨16, [], [], 1⟩ (letters 1) (letters 21) 0 [0]
        (recvBuffer (packetMessage 0 1 names ((Block.zeros dataSize).overwrite [0]))) := by
  have hdir : IsToken 0x2F (letters 1) := letters_token (by decide)
  have hname : IsToken 0x2F (letters 21) := letters_token (by decide)
  refine ⟨_, (argumentNames_eq hdir hname _ _).trans (if_pos (by decide)), ?_⟩
  intro h
  have hread := (readsBack_iff hdir hname _ _ (by decide) (by decide)
    (show ([0] : List UInt8).length ≤ dataSize by decide) (Block.zeros dataSize)).mp h
  exact absurd hread.2.2 (by decide)

end Comp556.Transfer
