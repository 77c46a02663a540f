import Starbug.Lib.Footprint
import Starbug.Lib.Bits
import Starbug.Lib.Sweep
import Starbug.Lib.Dict
import Starbug.Isa.Insn
import Starbug.Isa.Decode
import Starbug.Isa.Encode
import Starbug.Isa.Exact
import Starbug.Isa.Compressed
import Starbug.Check.Bundle
import Starbug.Check.Analyse
import Starbug.Check.Summary
import Starbug.Check.Profile
import Starbug.Check.Account
import Starbug.Check.Issue
import Starbug.Check.Steer
import Starbug.Check.Reorder
import Starbug.Vliw.Config
import Starbug.Vliw.Override
import Starbug.Vliw.Packetizer
import Starbug.Vliw.Groups
import Starbug.Vliw.Lower
import Starbug.Vliw.Lanes
import Starbug.Vliw.Exec
import Starbug.Vliw.Debug
import Starbug.Vliw.Agree
import Starbug.Vliw.Alias
import Starbug.Vliw.Structure
import Starbug.Check.Straddle
import Starbug.Vliw.Meaning
import Starbug.Bench.Run
import Starbug.Bench.Verdict
import Starbug.Check.ArchTag
import Starbug.Vliw.Single
import Starbug.Core.Cycles
import Starbug.Core.Compiled
import Starbug.Lib.Greedy
import Starbug.Vliw.Fewest
import Starbug.Check.Precise
import Starbug.Lib.Pattern
import Starbug.Text.Histogram
import Starbug.Text.Listing
import Starbug.Text.Tools
import Starbug.Bench.Sweep
import Starbug.Core.Link
import Starbug.Bench.Table
