import ForumModeration.Blob
import ForumModeration.Editor
import ForumModeration.Json.Decoding
import ForumModeration.Json.Encoding
import ForumModeration.Proofs.Blob.Damage
import ForumModeration.Proofs.Compatibility
import ForumModeration.Proofs.Editor.Arities
import ForumModeration.Proofs.Editor.Calls
import ForumModeration.Proofs.Editor.Carets
import ForumModeration.Proofs.Editor.Clocks
import ForumModeration.Proofs.Editor.Diagnostics
import ForumModeration.Proofs.Editor.Incompatibility
import ForumModeration.Proofs.Editor.Instants
import ForumModeration.Proofs.Editor.Literals
import ForumModeration.Proofs.Editor.Loaders
import ForumModeration.Proofs.Editor.Moments
import ForumModeration.Proofs.Editor.Parameters
import ForumModeration.Proofs.Editor.Precedence
import ForumModeration.Proofs.Editor.RoundTrip
import ForumModeration.Proofs.Editor.Scanning
import ForumModeration.Proofs.Editor.StoredForms
import ForumModeration.Proofs.Editor.Synonyms
import ForumModeration.Proofs.Editor.Variants
import ForumModeration.Proofs.Grammar.LongestMatch
import ForumModeration.Proofs.Grammar.Strings
import ForumModeration.Proofs.TokenTable.Lookup
