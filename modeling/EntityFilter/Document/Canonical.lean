import EntityFilter.Document.Printer
import EntityFilter.Hash.SipHash

/-!
# Canonical documents and fingerprints

Two documents that differ only in the order of members have the same canonical form: members are
sorted by key at every level.  The fingerprint of a document is a hash of its canonical text, so
it does not depend on the order of members either.

Keys sort by their bytes in UTF-8, which is the order of their code points.
-/

namespace EntityFilter

namespace Document

/-- Place a member before the first one with a greater key. -/
def insertSorted (member : String × Document) :
    List (String × Document) → List (String × Document)
  | [] => [member]
  | m :: ms => if member.1 < m.1 then member :: m :: ms else m :: insertSorted member ms

/-- Sort members by their keys. -/
def sortMembers (members : List (String × Document)) : List (String × Document) :=
  members.foldr insertSorted []

mutual

/-- The document with the members of every object sorted by key. -/
def canonical : Document → Document
  | array items => array (canonicalItems items)
  | object members => object (sortMembers (canonicalMembers members))
  | d => d

/-- The canonical forms of the items. -/
def canonicalItems : List Document → List Document
  | [] => []
  | d :: ds => canonical d :: canonicalItems ds

/-- The members with canonical values. -/
def canonicalMembers : List (String × Document) → List (String × Document)
  | [] => []
  | (key, d) :: ms => (key, canonical d) :: canonicalMembers ms

end

/-- The low 32 bits of the hash, under the zero key, of the canonical text and one byte 255. -/
def fingerprint (d : Document) : UInt32 :=
  (SipHash.hash 0 0 ((print (canonical d)).toUTF8.toList ++ [255])).toUInt32

/-- A fingerprint as eight hexadecimal digits. -/
def fingerprintText (n : UInt32) : String :=
  String.ofList ((List.range 8).map fun i => Text.hexDigit (n.toNat / Nat.pow 16 (7 - i) % 16))

end Document

end EntityFilter
