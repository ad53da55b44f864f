/-!
# Words

The bounds of the integers that a word of 32 or 64 bits holds.
-/

namespace RecordGuard.Word

/-- The unsigned integers of 32 bits lie below this one. -/
def limit32 : Nat := 0x100000000

/-- The unsigned integers of 64 bits lie below this one. -/
def limit64 : Nat := 0x10000000000000000

/-- The signed integers of 64 bits lie below this one, and none lies below its negation. -/
def half64 : Nat := 0x8000000000000000

end RecordGuard.Word
