/-
  The types of Foundation that headers lean on.
-/
import HeaderBridge.Typing.Registry

namespace HeaderBridge.Foundation

def object : KnownType := { name := "NSObject", initializers := [[]] }

def array : KnownType where
  name := "NSArray"
  supertype := some (.named "NSObject")
  properties := [⟨"count", .var .int⟩]

def mutableArray : KnownType where
  name := "NSMutableArray"
  supertype := some (.named "NSArray")
  methods := [⟨"addObject", [.unlabelled "anObject" .anyObject], .void, false⟩]

def dictionary : KnownType where
  name := "NSDictionary"
  supertype := some (.named "NSObject")
  properties := [⟨"count", .var .int⟩]

def mutableDictionary : KnownType where
  name := "NSMutableDictionary"
  supertype := some (.named "NSDictionary")
  methods := [
    ⟨"setObject", [.unlabelled "anObject" .anyObject, ⟨"forKey", "aKey", .anyObject⟩], .void,
      false⟩]

def string : KnownType where
  name := "NSString"
  supertype := some (.named "NSObject")
  protocols := ["NSCopying"]
  properties := [⟨"length", .var .int⟩]

def number : KnownType where
  name := "NSNumber"
  supertype := some (.named "NSObject")
  properties := [⟨"intValue", .var (.named "CInt")⟩, ⟨"doubleValue", .var .double⟩,
    ⟨"boolValue", .var .bool⟩]

/-- Every type above, each behind its supertype. -/
def registry : Registry :=
  ⟨[object, array, mutableArray, dictionary, mutableDictionary, string, number]⟩

end HeaderBridge.Foundation
