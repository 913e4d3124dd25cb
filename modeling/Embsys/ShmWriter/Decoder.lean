/-
# Decoding GLL frames and publishing them

The decoder recognises a frame by its length and its name alone and takes the
values from fixed offsets. `decodeFrame` is stated as the record it stores in
shared memory, if any; `readStep` is one iteration of the main loop of
shm_writer, which keeps nothing between two reads but the published record.
-/

import Embsys.Gps.Nmea

namespace Embsys.ShmWriter

open Embsys.Math Embsys.C Embsys.Gps

/-- The record in shared memory. -/
structure Shdata where
  latitude : ℚ
  longitude : ℚ
  time : ℤ
  deriving DecidableEq

/-! ## decoder.c -/

def isGll (frame : List Char) : ℤ :=
  if strlen frame = nmeaGllSize then
    let id := load frame 3 3 ++ [nul]
    if cstr id = ['G', 'L', 'L'] then 0 else 1
  else 1

def getTime (frame : List Char) : ℤ :=
  if isGll frame = 0 then
    let timeStr := load frame 28 6 ++ [nul]
    atoi (cstr timeStr)
  else -1

def getLatitude (frame : List Char) : ℚ :=
  if isGll frame = 0 then
    let latStr := load frame 7 7 ++ [nul]
    atof (cstr latStr)
  else -1

def getLongitude (frame : List Char) : ℚ :=
  if isGll frame = 0 then
    let longStr := load frame 17 8 ++ [nul]
    atof (cstr longStr)
  else -1

/-! ## shm_writer.c -/

/-- The record `decode_frame` stores, `none` when it leaves shared memory alone. -/
def decodeFrame (frame : List Char) : Option Shdata :=
  if isGll frame = 0 then
    let time := getTime frame
    let latitude := getLatitude frame
    let longitude := getLongitude frame
    if time ≠ -1 ∧ latitude ≠ -1 ∧ longitude ≠ -1 then some ⟨latitude, longitude, time⟩
    else none
  else none

/-- What the loop has published: the record, and all the records stored so far. -/
structure Published where
  shdata : Shdata
  stores : List Shdata

/-- `sizeof(buff)`. -/
def buffSize : ℕ := 50

/-- The buffer after `bzero` and a `read` that returned these bytes. -/
def fill (bytes : List Char) : List Char :=
  memcpy (zeroed buffSize) 0 bytes

/-- One iteration of the main loop whose `read` returned these bytes. -/
def readStep (published : Published) (bytes : List Char) : Published :=
  let buff := fill bytes
  if 0 < bytes.length then
    match decodeFrame buff with
    | some record => ⟨record, published.stores ++ [record]⟩
    | none => published
  else published

/-- The main loop over the results of successive reads. -/
def readLoop (published : Published) (reads : List (List Char)) : Published :=
  reads.foldl readStep published

/-! ## The loop -/

/-- The record one read makes the loop store. -/
def storedBy (bytes : List Char) : Option Shdata :=
  if 0 < bytes.length then decodeFrame (fill bytes) else none

theorem readStep_eq (published : Published) (bytes : List Char) :
    readStep published bytes =
      ⟨(storedBy bytes).getD published.shdata, published.stores ++ (storedBy bytes).toList⟩ := by
  unfold readStep storedBy
  by_cases hbytes : 0 < bytes.length
  · cases hdecode : decodeFrame (fill bytes) <;> simp [hbytes, hdecode]
  · simp [hbytes]

/-- The loop is stateless between reads: what it stores is what each read makes it store. -/
theorem readLoop_stores (published : Published) (reads : List (List Char)) :
    (readLoop published reads).stores = published.stores ++ reads.filterMap storedBy := by
  induction reads generalizing published with
  | nil => simp [readLoop]
  | cons bytes reads ih =>
      have hstep := ih (readStep published bytes)
      rw [readStep_eq] at hstep
      simp only [readLoop, List.foldl_cons, readStep_eq] at hstep ⊢
      rw [hstep, List.append_assoc]
      cases hstored : storedBy bytes <;> simp [hstored]

/-- The published record is the last one stored. -/
theorem readLoop_shdata (published : Published) (reads : List (List Char)) :
    (readLoop published reads).shdata =
      ((reads.filterMap storedBy).getLast?).getD published.shdata := by
  induction reads generalizing published with
  | nil => simp [readLoop]
  | cons bytes reads ih =>
      have hstep := ih (readStep published bytes)
      rw [readStep_eq] at hstep
      simp only [readLoop, List.foldl_cons, readStep_eq] at hstep ⊢
      rw [hstep]
      cases hstored : storedBy bytes with
      | none => simp [hstored]
      | some record =>
          cases hrest : reads.filterMap storedBy with
          | nil => simp [hstored, hrest]
          | cons next rest =>
              simp [hstored, hrest, List.getLast?_eq_some_getLast (List.cons_ne_nil next rest)]

/-! ## Recognition -/

theorem fill_eq (bytes : List Char) :
    fill bytes = bytes ++ zeroed (buffSize - bytes.length) := by
  simp [fill, memcpy, zeroed]

theorem nul_notMem_load {buffer : List Char} {n offset size : ℕ} (h : nul ∉ buffer.take n)
    (hsize : offset + size ≤ n) : nul ∉ load buffer offset size := by
  intro hmem
  apply h
  rw [load, List.take_drop] at hmem
  exact List.take_subset_take_left _ hsize (List.mem_of_mem_drop hmem)

/-- What acceptance means for the buffer: 36 characters, the name in place. -/
theorem isGll_eq_zero_iff (frame : List Char) :
    isGll frame = 0 ↔ strlen frame = nmeaGllSize ∧ load frame 3 3 = ['G', 'L', 'L'] := by
  unfold isGll
  by_cases hlength : strlen frame = nmeaGllSize
  · have hnul : nul ∉ load frame 3 3 :=
      nul_notMem_load (strlen_eq_iff.mp hlength).2.1 (by decide)
    simp only [hlength, if_true, cstr_append_nul hnul, true_and]
    split_ifs with hid <;> simp [hid]
  · simp [hlength]

/-- A read result is accepted only if it has at least 36 characters, carries the
name at offset 3, and a terminator right after the 36 characters if anything. -/
theorem shape_of_isGll_fill {bytes : List Char} (h : isGll (fill bytes) = 0) :
    nmeaGllSize ≤ bytes.length ∧ bytes[4]? = some 'L' ∧ bytes[5]? = some 'L' ∧
      ∀ c, bytes[nmeaGllSize]? = some c → c = nul := by
  obtain ⟨hlength, hname⟩ := (isGll_eq_zero_iff _).mp h
  obtain ⟨-, hnul, hstop⟩ := strlen_eq_iff.mp hlength
  rw [fill_eq] at hname hnul hstop
  have hlong : nmeaGllSize ≤ bytes.length := by
    by_contra hshort
    push Not at hshort
    apply hnul
    rw [List.take_append, List.mem_append]
    right
    have hroom : 0 < nmeaGllSize - bytes.length := by omega
    have hzero : 0 < buffSize - bytes.length := by
      simp only [nmeaGllSize, buffSize] at hshort ⊢
      omega
    rw [zeroed, List.take_replicate, List.mem_replicate]
    exact ⟨by omega, rfl⟩
  have hindex : ∀ i < nmeaGllSize, (bytes ++ zeroed (buffSize - bytes.length))[i]? = bytes[i]? :=
    fun i hi => List.getElem?_append_left (by omega)
  have hfour := congrArg (·[1]?) hname
  have hfive := congrArg (·[2]?) hname
  simp only [load, List.getElem?_take, List.getElem?_drop] at hfour hfive
  refine ⟨hlong, ?_, ?_, ?_⟩
  · simpa [hindex 4 (by decide)] using hfour
  · simpa [hindex 5 (by decide)] using hfive
  · intro c hc
    apply hstop c
    rw [List.getElem?_append_left]
    · exact hc
    · exact (List.getElem?_eq_some_iff.mp hc).1

/-! ## Accepted texts -/

/-- The record a sentence with these fields decodes to, unless a field reads as
the error value. -/
def fixOf (lat lon date : List Char) : Option Shdata :=
  if atoi date ≠ -1 ∧ atof lat ≠ -1 ∧ atof lon ≠ -1 then
    some ⟨atof lat, atof lon, atoi date⟩
  else none

/-- The places of a text the decoder accepts: the name at offset 3 and three fields.
What stands in the other places is not looked at. -/
structure Slots where
  talker : List Char
  comma : List Char
  lat : List Char
  northSouth : List Char
  lon : List Char
  eastWest : List Char
  date : List Char
  status : List Char
  length_talker : talker.length = 3
  length_comma : comma.length = 1
  length_lat : lat.length = 7
  length_northSouth : northSouth.length = 3
  length_lon : lon.length = 8
  length_eastWest : eastWest.length = 3
  length_date : date.length = 6
  length_status : status.length = 2

namespace Slots

def text (slots : Slots) : List Char :=
  slots.talker ++ ['G', 'L', 'L'] ++ slots.comma ++ slots.lat ++ slots.northSouth ++ slots.lon ++
    slots.eastWest ++ slots.date ++ slots.status

theorem length_text (slots : Slots) : slots.text.length = nmeaGllSize := by
  simp [text, nmeaGllSize, slots.length_talker, slots.length_comma, slots.length_lat,
    slots.length_northSouth, slots.length_lon, slots.length_eastWest, slots.length_date,
    slots.length_status]

/-- Each field is read back from its place. -/
theorem load_text (slots : Slots) (rest : List Char) :
    load (slots.text ++ rest) 3 3 = ['G', 'L', 'L'] ∧
      load (slots.text ++ rest) 7 7 = slots.lat ∧
      load (slots.text ++ rest) 17 8 = slots.lon ∧
      load (slots.text ++ rest) 28 6 = slots.date := by
  have htalker := slots.length_talker
  have hcomma := slots.length_comma
  have hlat := slots.length_lat
  have hnorth := slots.length_northSouth
  have hlon := slots.length_lon
  have heast := slots.length_eastWest
  have hdate := slots.length_date
  have hname : slots.text ++ rest = slots.talker ++ (['G', 'L', 'L'] ++ (slots.comma ++ slots.lat ++
      slots.northSouth ++ slots.lon ++ slots.eastWest ++ slots.date ++ slots.status ++ rest)) := by
    simp [text]
  have hlatSplit : slots.text ++ rest = (slots.talker ++ ['G', 'L', 'L'] ++ slots.comma) ++
      (slots.lat ++ (slots.northSouth ++ slots.lon ++ slots.eastWest ++ slots.date ++
        slots.status ++ rest)) := by
    simp [text]
  have hlonSplit : slots.text ++ rest = (slots.talker ++ ['G', 'L', 'L'] ++ slots.comma ++
      slots.lat ++ slots.northSouth) ++ (slots.lon ++ (slots.eastWest ++ slots.date ++
        slots.status ++ rest)) := by
    simp [text]
  have hdateSplit : slots.text ++ rest = (slots.talker ++ ['G', 'L', 'L'] ++ slots.comma ++
      slots.lat ++ slots.northSouth ++ slots.lon ++ slots.eastWest) ++
        (slots.date ++ (slots.status ++ rest)) := by
    simp [text]
  refine ⟨?_, ?_, ?_, ?_⟩
  · rw [hname]
    exact load_append htalker rfl
  · rw [hlatSplit]
    exact load_append (by simp [htalker, hcomma]) hlat
  · rw [hlonSplit]
    exact load_append (by simp [htalker, hcomma, hlat, hnorth]) hlon
  · rw [hdateSplit]
    exact load_append (by simp [htalker, hcomma, hlat, hnorth, hlon, heast]) hdate

/-- Every text of 36 characters with the name in place has these places. -/
theorem exists_text_eq {text : List Char} (hlength : text.length = nmeaGllSize)
    (hname : load text 3 3 = ['G', 'L', 'L']) : ∃ slots : Slots, slots.text = text := by
  have hsize : ∀ offset n, offset + n ≤ nmeaGllSize → (load text offset n).length = n := by
    intro offset n hinside
    rw [load, List.length_take, List.length_drop, hlength]
    omega
  refine ⟨⟨load text 0 3, load text 6 1, load text 7 7, load text 14 3, load text 17 8,
    load text 25 3, load text 28 6, load text 34 2, hsize _ _ (by decide), hsize _ _ (by decide),
    hsize _ _ (by decide), hsize _ _ (by decide), hsize _ _ (by decide), hsize _ _ (by decide),
    hsize _ _ (by decide), hsize _ _ (by decide)⟩, ?_⟩
  rw [Slots.text, ← hname]
  simp only [load_append_load text 0 3, load_append_load text 0]
  rw [load, List.drop_zero, List.take_of_length_le (hlength.trans_le (by decide))]

/-- **Accepted texts.** Whatever follows the terminator, the fields are read from their
places and stored unless one of them reads as the error value. -/
theorem decodeFrame_text (slots : Slots) (hnul : nul ∉ slots.text) (rest : List Char) :
    decodeFrame (slots.text ++ nul :: rest) = fixOf slots.lat slots.lon slots.date := by
  obtain ⟨hname, hlat, hlon, hdate⟩ := slots.load_text (nul :: rest)
  have hstrlen : strlen (slots.text ++ nul :: rest) = nmeaGllSize := by
    rw [strlen, cstr_append_nul hnul, slots.length_text]
  have hgll := (isGll_eq_zero_iff _).mpr ⟨hstrlen, hname⟩
  have hlatNul : nul ∉ slots.lat := fun hmem => hnul (by simp [text, hmem])
  have hlonNul : nul ∉ slots.lon := fun hmem => hnul (by simp [text, hmem])
  have hdateNul : nul ∉ slots.date := fun hmem => hnul (by simp [text, hmem])
  simp only [decodeFrame, getTime, getLatitude, getLongitude, hgll, if_true, hlat, hlon, hdate]
  rw [cstr_append_nul hdateNul, cstr_append_nul hlatNul, cstr_append_nul hlonNul, fixOf]

end Slots

/-! ## Sentences delivered whole -/

section Sentence

variable {lat lon date : List Char} {northSouth eastWest : Char}

/-- The sentence has the places of an accepted text. -/
theorem exists_slots_gllText (hlat : lat.length = 7) (hlon : lon.length = 8)
    (hdate : date.length = 6) :
    ∃ slots : Slots, slots.text = gllText lat northSouth lon eastWest date ∧
      slots.lat = lat ∧ slots.lon = lon ∧ slots.date = date := by
  refine ⟨⟨['$', 'G', 'P'], [','], lat, [',', northSouth, ','], lon, [',', eastWest, ','], date,
    [',', 'A'], rfl, rfl, hlat, rfl, hlon, rfl, hdate, rfl⟩, ?_, rfl, rfl, rfl⟩
  simp [Slots.text, gllText]

/-- **Decoding a whole sentence.** A sentence without terminators, alone in the
buffer, is accepted, and its three fields are read back. -/
theorem decodeFrame_fill_gllText (hlat : lat.length = 7) (hlon : lon.length = 8)
    (hdate : date.length = 6) (hnul : nul ∉ gllText lat northSouth lon eastWest date) :
    decodeFrame (fill (gllText lat northSouth lon eastWest date)) = fixOf lat lon date := by
  have hfill : fill (gllText lat northSouth lon eastWest date) =
      gllText lat northSouth lon eastWest date ++ nul :: zeroed 13 := by
    rw [fill_eq, length_gllText hlat hlon hdate]
    rfl
  obtain ⟨slots, htext, rfl, rfl, rfl⟩ :=
    @exists_slots_gllText lat lon date northSouth eastWest hlat hlon hdate
  rw [hfill, ← htext, slots.decodeFrame_text (htext ▸ hnul)]

end Sentence

end Embsys.ShmWriter
