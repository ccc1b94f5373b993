/-
# MyProxy requests

A client sends its request as lines `KEY=value`; fields that are not set have no line, and each name of a list has a line
of its own.  The server looks for each key with `strstr` over the whole message, takes the rest of the line for its
value, and refuses a key that it finds more than once.
-/
import Gct.Lib.Keyed
import Gct.Lib.Strtol
import Gct.Lib.Words

namespace Gct.MyProxy

abbrev Text := List Char

/-! ## 1. Requests -/

/-- `myproxy_proto_request_type_t`.  The server takes any number from the message for one, so there are others. -/
inductive RequestType where
  | getProxy
  | putProxy
  | infoProxy
  | destroyProxy
  | changeCredPassphrase
  | storeCert
  | retrieveCert
  | getTrustroots
  | other (value : Int)
  deriving DecidableEq, Repr

/-- `myproxy_request_t`; `none` is `NULL`. -/
structure Request where
  version : Text
  username : Text
  passphrase : Text := []
  newPassphrase : Text := []
  commandType : RequestType
  proxyLifetime : Int
  retrievers : Option Text := none
  renewers : Option Text := none
  credname : Option Text := none
  creddesc : Option Text := none
  authzcreds : Option Text := none
  keyretrieve : Option Text := none
  trustedRetrievers : Option Text := none
  wantTrustedCerts : Int := 0
  voname : Option Text := none
  vomses : Option Text := none
  certreq : Option Text := none
  deriving DecidableEq, Repr

def maxPassLen : Nat := 1024

/-- The fields of a message. -/
inductive Key where
  | version
  | command
  | username
  | passphrase
  | newPassphrase
  | lifetime
  | retriever
  | renewer
  | credName
  | credDesc
  | keyRetriever
  | trustedRetriever
  | trustedCerts
  | voname
  | vomses
  deriving DecidableEq, Repr

def credPrefix : Text := "CRED".toList

/-- The strings of `myproxy_constants.h`. -/
def Key.text : Key → Text
  | .version => "VERSION=".toList
  | .command => "COMMAND=".toList
  | .username => "USERNAME=".toList
  | .passphrase => "PASSPHRASE=".toList
  | .newPassphrase => "NEW_PHRASE=".toList
  | .lifetime => "LIFETIME=".toList
  | .retriever => "RETRIEVER=".toList
  | .renewer => "RENEWER=".toList
  | .credName => credPrefix ++ "_".toList ++ "NAME=".toList
  | .credDesc => credPrefix ++ "_".toList ++ "DESC=".toList
  | .keyRetriever => "KEYRETRIEVERS=".toList
  | .trustedRetriever => "RETRIEVER_TRUSTED=".toList
  | .trustedCerts => "TRUSTED_CERTS=".toList
  | .voname => "VONAME=".toList
  | .vomses => "VOMSES=".toList

variable (key : Key) (data : Text)

theorem Key.text_ne_nil : key.text ≠ [] := by cases key <;> decide

/-! ## 2. Writing a request -/

/-- `encode_command`. -/
def encodeCommand : RequestType → Option Text
  | .getProxy => some "0".toList
  | .putProxy => some "1".toList
  | .infoProxy => some "2".toList
  | .destroyProxy => some "3".toList
  | .changeCredPassphrase => some "4".toList
  | .storeCert => some "5".toList
  | .retrieveCert => some "6".toList
  | .getTrustroots => some "7".toList
  | .other _ => none

def stripChar (buf : Text) (ch : Char) : Text := buf.filter (· ≠ ch)

/-- A line that is appended. -/
def field (value : Text) : Text := key.text ++ value ++ ['\n']

def optionalField : Option Text → Text
  | none => []
  | some value => field key value

/-- A line for each name that `strtok` finds between newlines. -/
def listField : Option Text → Text
  | none => []
  | some names => (Words.words (· = '\n') names).flatMap (field key)

/-- `myproxy_serialize_request_ex`: the message without the NUL at its end. -/
def serializeRequest (request : Request) : Option Text :=
  match encodeCommand request.commandType with
  | none => none
  | some command => some ( field .version request.version ++ field .command command ++
      field .username request.username ++
      field .passphrase request.passphrase ++
      (if request.newPassphrase ≠ [] then field .newPassphrase request.newPassphrase else []) ++
      field .lifetime (CText.printInt request.proxyLifetime) ++
      optionalField .retriever request.retrievers ++
      optionalField .renewer request.renewers ++
      optionalField .credName (request.credname.map (stripChar · '\n')) ++
      optionalField .credDesc (request.creddesc.map (stripChar · '\n')) ++
      optionalField .keyRetriever request.keyretrieve ++
      optionalField .trustedRetriever request.trustedRetrievers ++
      (if request.wantTrustedCerts ≠ 0 then field .trustedCerts "1".toList else []) ++
      listField .voname request.voname ++
      listField .vomses request.vomses)

/-! ## 3. Reading a request -/

/-- The results of `convert_message`: -1, -2 and the length of the line. -/
inductive Converted where
  | failed
  | notFound
  | line (text : Text)
  deriving DecidableEq, Repr

/-- The values that the loop of `convert_message` finds. -/
def findValues (buffer : Text) : List Text := (Keyed.reader '\n' key.text key.text_ne_nil).tokens () buffer

/-- `convert_message`.  The second value is an error, or it is put behind the first one and a newline. -/
def convertMessage (buffer : Text) (key : Key) (allowMultiple : Bool) : Converted :=
  match findValues key buffer with
  | [] => .notFound
  | [value] => .line value
  | values => if allowMultiple then .line (['\n'].intercalate values) else .failed

/-- `string_to_int`; the value is stored in an `int`. -/
def stringToInt (string : Text) : Option Int :=
  if string = [] then none
  else
    let (value, parseEnd) := CText.strtol string
    if value = CText.longMin then none
    else if value = CText.longMax then none
    else if parseEnd ≠ [] then none
    else some (value.bmod (2 ^ 32))

def RequestType.ofInt : Int → RequestType
  | 0 => .getProxy
  | 1 => .putProxy
  | 2 => .infoProxy
  | 3 => .destroyProxy
  | 4 => .changeCredPassphrase
  | 5 => .storeCert
  | 6 => .retrieveCert
  | 7 => .getTrustroots
  | value => .other value

/-- `parse_command`. -/
def parseCommand (commandStr : Text) : Option RequestType := (stringToInt commandStr).map RequestType.ofInt

/-- A field that every message has. -/
def requiredField (key : Key) : Option Text :=
  match convertMessage data key false with
  | .line value => some value
  | _ => none

/-- A field that is `NULL` if the message does not have it. -/
def readOptional (key : Key) (allowMultiple : Bool) : Option (Option Text) :=
  match convertMessage data key allowMultiple with
  | .failed => none
  | .notFound => some none
  | .line value => some (some value)

/-- The passphrases are copied with `strncpy` into arrays of the request. -/
def copyPassphrase (value : Text) : Text := value.take maxPassLen

def readTrustedCerts : Option Int :=
  match readOptional data .trustedCerts false with
  | none => none
  | some none => some 0
  | some (some value) => stringToInt value

/-- `myproxy_deserialize_request` for a request that was set to zero before. -/
def deserializeRequest : Option Request := do
  let version ← requiredField data .version
  let commandType ← (requiredField data .command).bind parseCommand
  let username ← requiredField data .username
  let passphrase ← requiredField data .passphrase
  let newPassphrase ← readOptional data .newPassphrase false
  let proxyLifetime ← (requiredField data .lifetime).bind stringToInt
  let retrievers ← readOptional data .retriever false
  let renewers ← readOptional data .renewer false
  let credname ← readOptional data .credName false
  let creddesc ← readOptional data .credDesc false
  let keyretrieve ← readOptional data .keyRetriever false
  let trustedRetrievers ← readOptional data .trustedRetriever false
  let wantTrustedCerts ← readTrustedCerts data
  let voname ← readOptional data .voname true
  let vomses ← readOptional data .vomses true
  some {
    version, username, commandType, proxyLifetime, retrievers, renewers, credname, creddesc, keyretrieve,
    trustedRetrievers, wantTrustedCerts, voname, vomses
    passphrase := copyPassphrase passphrase
    newPassphrase := copyPassphrase (newPassphrase.getD []) }

end Gct.MyProxy
