import SiestaVR.Lib.Tables
import SiestaVR.Video.FrameSizes
import SiestaVR.Video.Keyframe

/-!
# The cache of frame-size tables (lib/alvr_stream_socket.rs:3803–3915)

`FrameSizeTable::load` reads a table from a file whose name is made of the codec, the video,
the frame rate and the encoder settings, and draws a start offset from the run's seed.
`get_table` keeps the tables it has loaded, under a key of video, frame rate and seed. The
codec and the settings are missing in the key, though they decide which file is read, and the
codec is stored in the table.

`get_table` is a cache in front of a loader (`getTable_eq_memo`), so it is transparent exactly
if calls with the same key load the same table (`getTables_transparent_iff`).
-/

namespace SiestaVR.Video

open Lib

/-! ## The code -/

/-- `fmt::Display` for `VideoCodec`. -/
def VideoCodec.display : VideoCodec → String
  | .hevc => "HEVC"
  | .av1 => "AV1"

/-- A file as the CSV reader returns it: headers, and one record after the other. -/
structure CsvFile where
  headers : Except String (List String)
  records : List (Except String (List String))

/-- What `load` depends on besides its arguments. -/
structure Environment where
  /-- `get_prefix_path`: a path under the current directory. -/
  getPrefixPath : String → String
  files : String → Option CsvFile
  /-- A draw below a bound, from the run's seed and the path of the trace. -/
  startOffsetDraw : UInt64 → String → Nat → Nat

/-- The arguments of `get_table`. -/
structure TableArgs where
  finalFile : String
  fps : UInt32
  codecSelection : VideoCodec
  vbvPerframe : Bool
  intraRefreshEnabled : Bool
  useFoveation : Bool
  runSeed : UInt64
deriving DecidableEq, Repr

/-- `trim_end_matches("Mbps")`, on the characters from the end. -/
def trimEndMbps : List Char → List Char
  | 's' :: 'p' :: 'b' :: 'M' :: rest => trimEndMbps rest
  | chars => chars

/-- The digits of a number, read from the left. -/
def parseDigits (digits : List Char) : Option UInt32 :=
  let value := digits.foldl (fun n c => 10 * n + (c.toNat - '0'.toNat)) 0
  if digits = [] ∨ ¬ digits.all Char.isDigit ∨ 2 ^ 32 ≤ value then none
  else some (.ofNat value)

/-- `parse::<u32>()`, which allows a plus sign. -/
def parseU32 : List Char → Option UInt32
  | '+' :: digits => parseDigits digits
  | digits => parseDigits digits

/-- The bitrate of a column. -/
def parseHeader (h : String) : Except String UInt32 :=
  match parseU32 (trimEndMbps h.toList.reverse).reverse with
  | some m => .ok m
  | none => .error ("Bad column name: " ++ h)

/-- A cell of a record: what is missing or no number counts as zero. -/
def parseCell (rec : List String) (col : Nat) : UInt32 :=
  (parseU32 ((rec[col + 1]?).getD "0").toList).getD 0

namespace TableArgs

/-- The name of the file. -/
def relPath (args : TableArgs) : String :=
  "csv_framesizes/" ++ args.codecSelection.display ++ "_" ++ args.finalFile ++ "_" ++
    toString args.fps.toNat ++ "fps_vbv" ++ toString args.vbvPerframe.toNat ++ "_IR" ++
    toString args.intraRefreshEnabled.toNat ++ "_foveated" ++ toString args.useFoveation.toNat ++
    ".csv"

/-- The key under which a table is kept. -/
def key (args : TableArgs) : String × UInt32 × UInt64 :=
  (args.finalFile, args.fps, args.runSeed)

end TableArgs

/-- The columns of a table: every record has a cell for each. -/
def frameColumns (ncols : Nat) (records : List (List String)) : List (List UInt32) :=
  (List.range ncols).map fun col => records.map fun rec => parseCell rec col

/-- The start offset: in the first half of the frames. -/
def startOffset (env : Environment) (args : TableArgs) (numFrames : Nat) : Nat :=
  if 1 < numFrames then
    let middleFrame := numFrames / 2
    if 0 < middleFrame then env.startOffsetDraw args.runSeed args.relPath middleFrame else 0
  else 0

/-- The table with these columns and records. -/
def tableOf (env : Environment) (args : TableArgs) (mbpsCols : List UInt32)
    (records : List (List String)) : FrameSizeTable where
  fps := args.fps
  codecStr := args.codecSelection.display
  mbpsCols := mbpsCols
  framesizes := frameColumns mbpsCols.length records
  startOffset :=
    startOffset env args (((frameColumns mbpsCols.length records)[0]?).elim 0 List.length)
  length_framesizes := by rw [frameColumns, List.length_map, List.length_range]
  length_column := by
    intro v hv w hw
    obtain ⟨_, -, rfl⟩ := List.mem_map.1 hv
    obtain ⟨_, -, rfl⟩ := List.mem_map.1 hw
    rw [List.length_map, List.length_map]

/-- `FrameSizeTable::load`. -/
def loadTable (env : Environment) (args : TableArgs) : Except String FrameSizeTable :=
  let path := env.getPrefixPath args.relPath
  match env.files path with
  | none => .error ("Frame-size CSV not found: " ++ path)
  | some file => do
    let headers ← file.headers
    let mbpsCols ← (headers.drop 1).mapM parseHeader
    let records ← file.records.mapM id
    return tableOf env args mbpsCols records

/-- `TABLE_CACHE`. -/
abbrev TableCache := Table (String × UInt32 × UInt64) FrameSizeTable

/-- `get_table`. -/
def getTable (env : Environment) (cache : TableCache) (args : TableArgs) :
    Except String FrameSizeTable × TableCache :=
  match cache.lookup args.key with
  | some entry => (.ok entry, cache)
  | none =>
    match loadTable env args with
    | .error e => (.error e, cache)
    | .ok table =>
      -- `entry(key).or_insert_with(..)`
      match cache.lookup args.key with
      | some entry => (.ok entry, cache)
      | none => (.ok table, cache.insert args.key table)

/-- The results of calls one after another. -/
def getTables (env : Environment) :
    List TableArgs → TableCache → List (Except String FrameSizeTable)
  | [], _ => []
  | args :: calls, cache =>
    (getTable env cache args).1 :: getTables env calls (getTable env cache args).2

/-! ## Transparency -/

theorem getTable_eq_memo (env : Environment) (cache : TableCache) (args : TableArgs) :
    getTable env cache args = memo TableArgs.key (loadTable env) cache args := by
  unfold getTable memo
  cases hkept : cache.lookup args.key with
  | some entry => rfl
  | none => cases loadTable env args <;> rfl

theorem getTables_eq_memoAll (env : Environment) (calls : List TableArgs) (cache : TableCache) :
    getTables env calls cache = memoAll TableArgs.key (loadTable env) cache calls := by
  induction calls generalizing cache with
  | nil => rfl
  | cons args calls ih => rw [getTables, memoAll, ih, getTable_eq_memo]

/-- **When the cache is transparent**: each call gets the table of its own arguments exactly if
no call has the video, frame rate and seed of an earlier one that loaded another table. -/
theorem getTables_transparent_iff (env : Environment) (calls : List TableArgs) :
    getTables env calls ∅ = calls.map (loadTable env) ↔
      calls.Pairwise fun earlier later =>
        earlier.finalFile = later.finalFile → earlier.fps = later.fps →
          earlier.runSeed = later.runSeed → ∀ table, loadTable env earlier = .ok table →
            loadTable env later = .ok table := by
  rw [getTables_eq_memoAll, memoAll_eq_map_iff]
  refine iff_of_eq (congrArg (List.Pairwise · calls) ?_)
  funext earlier later
  simp [SameLoad, TableArgs.key]

/-- A call for one codec. -/
def codecArgs (codecSelection : VideoCodec) : TableArgs where
  finalFile := "video"
  fps := 90
  codecSelection := codecSelection
  vbvPerframe := false
  intraRefreshEnabled := false
  useFoveation := false
  runSeed := 1

/-- One file for each codec, with one frame at 5 Mbps. -/
def twoCodecs : Environment where
  getPrefixPath := id
  files path :=
    if path = (codecArgs .hevc).relPath then
      some ⟨.ok ["frame_index", "5Mbps"], [.ok ["0", "1000"]]⟩
    else if path = (codecArgs .av1).relPath then
      some ⟨.ok ["frame_index", "5Mbps"], [.ok ["0", "700"]]⟩
    else none
  startOffsetDraw _ _ _ := 0

/-- The second call gets the sizes of the other codec. -/
theorem twoCodecs_not_transparent :
    (getTables twoCodecs [codecArgs .hevc, codecArgs .av1] ∅).map
        (fun r => r.toOption.map fun t => (t.codecStr, t.framesizes)) =
      [some ("HEVC", [[1000]]), some ("HEVC", [[1000]])] ∧
    [codecArgs .hevc, codecArgs .av1].map
        (fun args => (loadTable twoCodecs args).toOption.map fun t => (t.codecStr, t.framesizes)) =
      [some ("HEVC", [[1000]]), some ("AV1", [[700]])] := by
  decide +kernel

end SiestaVR.Video
