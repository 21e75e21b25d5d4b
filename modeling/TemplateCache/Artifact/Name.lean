import TemplateCache.Hash.Content
import TemplateCache.Path.Basic

/-!
# Artifact names

The file name of a compiled template,

    template_<parent>_<stem>_<path key>_<variant key>_<content key>.<extension>

Everything up to the content key is the *identity*: it is fixed by the source path, the
transform's fingerprint and the transform options. The content key is the hash of fingerprint,
options and source bytes. Two file names are *siblings* when only their content keys may differ.
-/

namespace TemplateCache

/-- The name of a compiled artifact. -/
structure ArtifactName where
  identity : List Char
  contentKey : ContentHash
  extension : List Char
  deriving DecidableEq

namespace ArtifactName

/-! ## Safe characters -/

def isAsciiLetter (c : Char) : Bool := ('a' ≤ c && c ≤ 'z') || ('A' ≤ c && c ≤ 'Z')

/-- The characters a name takes over from a path. -/
def isSafe (c : Char) : Bool := isAsciiLetter c || c.isDigit || c == '-'

/-- A text with an underscore for every character that is not safe. -/
def sanitize (raw : List Char) : List Char := raw.map fun c => if isSafe c then c else '_'

/-- Bytes of a path made safe: what is no text in them becomes underscores as well. -/
def sanitizeBytes (raw : Bytes) : List Char := sanitize (Utf8.decodeLenient raw)

/-! ## Building a name -/

def leading : List Char := "template".toList

/-- Digits of the path's hash in a name. -/
def pathKeyLength : Nat := 16

/-- Digits of the variant's hash in a name. -/
def variantKeyLength : Nat := 8

/-- The name of a source's directory, or what stands for the root. -/
def parentPart (source : Path) : List Char :=
  ((source.parent?.bind Path.fileName?).map sanitizeBytes).getD "root".toList

/-- The source's file name without its extension, or what stands for none. -/
def stemPart (source : Path) : List Char :=
  (source.stem?.map sanitizeBytes).getD "anonymous".toList

/-- The source's extension, or what stands for none. -/
def extensionPart (source : Path) : List Char :=
  match source.extension?.map sanitizeBytes with
  | some (c :: rest) => c :: rest
  | _ => "tpl".toList

/-- The hash of the path as it is spelled. -/
def pathKey (source : Path) : List Char := (ContentHash.ofBytes source.bytes).short pathKeyLength

/-- The hash of a transform's fingerprint and options. -/
def variantHash (fingerprint optionsKey : Bytes) : ContentHash :=
  ContentHash.ofParts [fingerprint, optionsKey]

/-- The part of a name that does not depend on the source's contents. -/
def identityOf (source : Path) (fingerprint optionsKey : Bytes) : List Char :=
  leading ++ '_' :: parentPart source ++ '_' :: stemPart source ++ '_' :: pathKey source
    ++ '_' :: (variantHash fingerprint optionsKey).short variantKeyLength ++ ['_']

/-- The name of what a transform makes of a source. -/
def forSource (source : Path) (fingerprint optionsKey contents : Bytes) : ArtifactName where
  identity := identityOf source fingerprint optionsKey
  contentKey := ContentHash.ofParts [fingerprint, optionsKey, contents]
  extension := extensionPart source

/-- The file name in full. -/
def fileName (n : ArtifactName) : List Char :=
  n.identity ++ n.contentKey.text ++ '.' :: n.extension

/-! ## Siblings -/

def isHexDigit (c : Char) : Bool :=
  c.isDigit || ('a' ≤ c && c ≤ 'f') || ('A' ≤ c && c ≤ 'F')

/-- What follows a given beginning of a text. -/
def after? : List Char → List Char → Option (List Char)
  | [], text => some text
  | _ :: _, [] => none
  | c :: beginning, d :: text => if c = d then after? beginning text else none

/-- Whether a file name is this one up to its content key, which may be any 32 digits. -/
def isSibling (n : ArtifactName) (fileName : List Char) : Bool :=
  match after? n.identity fileName with
  | none => false
  | some rest =>
      let key := rest.takeWhile (· != '.')
      key.length == 32 && key.all isHexDigit && rest.dropWhile (· != '.') == '.' :: n.extension

end ArtifactName

end TemplateCache
