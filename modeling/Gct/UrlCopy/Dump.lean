/-
# The dump file of `globus-url-copy`

`globus_url_copy.c`.  `globus_l_guc_dump_urls` writes a line for every transfer that is not finished, and a
later run reads the lines with `globus_l_guc_parse_file`.  Of the restart marker of a transfer in progress
only the first block is looked at.

A URL of 512 characters or more overruns a buffer of the reader; the model stops there as at a line that
cannot be parsed.
-/
import Gct.Lib.FileReader
import Gct.RestartMarker.Basic

namespace Gct

/-- `globus_ftp_client_restart_marker_get_first_block`. -/
def RestartMarker.getFirstBlock : RestartMarker → Int × Int
  | .stream offset _ => (0, offset)
  | .extendedBlock (some (range :: _)) => (range.offset, range.endOffset)
  | _ => (0, 0)

namespace UrlCopy

open CText FileReader

/-! ## 1. Writing -/

/-- `globus_l_guc_url_info_t`, without the URL. -/
structure UrlInfo where
  isFile : Bool
  size : Int
  mdtm : Int
  mode : Int
  checksum : Option (List Char)
  deriving DecidableEq

/-- `globus_l_guc_src_dst_pair_t`. -/
structure SrcDstPair where
  srcUrl : List Char
  dstUrl : List Char
  offset : Int
  length : Int
  srcInfo : Option UrlInfo
  deriving DecidableEq

/-- `%s=%s;` -/
def fact (name value : List Char) : List Char := name ++ '=' :: value ++ [';']

/-- The `statstr` of `globus_l_guc_print_url_line`. -/
def UrlInfo.statstr (info : UrlInfo) : List Char :=
  (if 0 ≤ info.size ∧ info.isFile then fact "size".toList (printInt info.size) else []) ++
  (if 0 ≤ info.mdtm then fact "modify".toList (printInt info.mdtm) else []) ++
  (if 0 ≤ info.mode then fact "mode".toList ((Nat.toDigits 8 info.mode.toNat).leftpad 4 '0') else []) ++
  (if info.isFile then info.checksum.elim [] (fact "cksm".toList) else [])

variable (offset length : Int)

/-- What stands behind the URLs. -/
def printNumbers (statstr : List Char) : List Char :=
  if length > -1 then ' ' :: printInt offset ++ ',' :: printInt length ++ ' ' :: statstr
  else if offset > -1 then ' ' :: printInt offset ++ ' ' :: statstr
  else if statstr ≠ [] then ' ' :: "0,-1".toList ++ ' ' :: statstr
  else []

/-- `globus_l_guc_print_url_line`, without a prefix. -/
def printUrlLine (srcUrl dstUrl : List Char) (offset length : Int) (info : Option UrlInfo) : List Char :=
  '"' :: srcUrl ++ '"' :: ' ' :: '"' :: dstUrl ++ '"' :: printNumbers offset length (info.elim [] UrlInfo.statstr) ++
    ['\n']

/-- A `globus_l_guc_transfer_t`, and the restart marker of its FTP handle. -/
structure Transfer where
  urls : SrcDstPair
  marker : RestartMarker

variable (transfer : Transfer)

/-- The `off` and `len` that `globus_l_guc_dump_urls` computes. -/
def Transfer.remaining : Int × Int :=
  let (startOffset, endOffset) := transfer.marker.getFirstBlock
  let urls := transfer.urls
  if urls.length > -1 then
    (offAdd urls.offset endOffset, offSub urls.length (offSub endOffset startOffset))
  else if endOffset > 0 ∨ urls.offset > -1 then
    (if endOffset > urls.offset then endOffset else urls.offset, urls.length)
  else (urls.offset, urls.length)

def Transfer.line : List Char :=
  printUrlLine transfer.urls.srcUrl transfer.urls.dstUrl transfer.remaining.1 transfer.remaining.2 transfer.urls.srcInfo

def SrcDstPair.line (pair : SrcDstPair) : List Char :=
  printUrlLine pair.srcUrl pair.dstUrl pair.offset pair.length pair.srcInfo

/-- The part of `globus_l_guc_info_t` that is dumped: the transfers of the handles, and the two lists. -/
structure GucInfo where
  currentTransfers : List Transfer
  expandedUrlList : List SrcDstPair
  userUrlList : List SrcDstPair

/-- `globus_l_guc_dump_urls`. -/
def dumpUrls (info : GucInfo) : List Char :=
  info.currentTransfers.flatMap Transfer.line ++ info.expandedUrlList.flatMap SrcDstPair.line ++
    info.userUrlList.flatMap SrcDstPair.line

/-! ## 2. Reading -/

/-- One URL, in quotes or as a word, and what is left of the line. -/
def parseUrl (p : List Char) : Option (List Char × List Char) :=
  let (url, urlLen) :=
    if p.head? = some '"' then (p.tail.takeWhile (· ≠ '"'), 2) else (p.takeWhile (!isSpace ·), 0)
  if url = [] ∨ 512 ≤ url.length then none else some (url, p.drop (urlLen + url.length))

/-- The conversions `%lld,%lld` of the rest of the line, if there is one. -/
def parseNumbers (p : List Char) : Option (Int × Int) :=
  if p = [] then some (offset, length)
  else
    match scanOff p with
    | none => none
    | some (offset, t) =>
      let length := if t.head? = some ',' then (scanOff t.tail).elim length Prod.fst else length
      if offset < -1 ∨ length < -1 then none else some (offset, length)

/-- One line: `none` is the error, `some none` a blank line or a comment. -/
def parseLine (line : List Char) : Option (Option SrcDstPair) :=
  let p := line.dropWhile isSpace
  if p = [] ∨ p.head? = some '#' then some none
  else do
    let (srcUrl, p) ← parseUrl p
    let (dstUrl, p) ← parseUrl (p.dropWhile isSpace)
    let (offset, length) ← parseNumbers offset length (p.dropWhile isSpace)
    return some ⟨srcUrl, dstUrl, offset, length, none⟩

/-- The loop of `globus_l_guc_parse_file`; `offset` and `length` are those of the command line. -/
def parseLoop (offset length : Int) : Nat → Bool → List Char → Option (List SrcDstPair)
  | 0, _, _ => some []
  | n + 1, stdinUsed, file =>
    match fgets () 1024 file with
    | .error _ => some []
    | .ok (line, file) =>
      match parseLine offset length line with
      | none => none
      | some none => parseLoop offset length n stdinUsed file
      | some (some ent) =>
        if ent.srcUrl = ['-'] ∧ (ent.dstUrl = ['-'] ∨ stdinUsed) then none
        else (parseLoop offset length n (stdinUsed || ent.srcUrl = ['-']) file).map (ent :: ·)

/-- `globus_l_guc_parse_file`.  A line takes at least one character. -/
def parseFile (file : List Char) : Option (List SrcDstPair) :=
  parseLoop offset length file.length false file

end UrlCopy

end Gct
