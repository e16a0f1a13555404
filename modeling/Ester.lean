import Ester.Drivers.Ahci
import Ester.Drivers.Ahci.Handshake
import Ester.Drivers.Ahci.Hba
import Ester.Drivers.Ahci.Hba.Bringup
import Ester.Drivers.Ahci.Regions
import Ester.Drivers.Ahci.Slots
import Ester.Drivers.Ahci.Tables
import Ester.Drivers.BlockStore
import Ester.Drivers.Pic
import Ester.Drivers.Pic.Runs
import Ester.Drivers.Ps2Keyboard
import Ester.Drivers.Ps2Keyboard.ScanCodes
import Ester.Drivers.Vga.PaperRoll
import Ester.Drivers.Vga.Rows
import Ester.Drivers.Vga.Screen
import Ester.Drivers.Vga.Strings
import Ester.Ext2.Allocation.Answers
import Ester.Ext2.Allocation.BlockScan
import Ester.Ext2.Allocation.Counters
import Ester.Ext2.Allocation.Effect
import Ester.Ext2.Allocation.Freshness
import Ester.Ext2.Allocation.Refinement
import Ester.Ext2.Cwd
import Ester.Ext2.Cwd.Directory
import Ester.Ext2.Cwd.Name
import Ester.Ext2.Device
import Ester.Ext2.Directory
import Ester.Ext2.Directory.Accesses
import Ester.Ext2.Directory.Adding
import Ester.Ext2.Directory.Bounds
import Ester.Ext2.Directory.Delivery
import Ester.Ext2.Directory.Full
import Ester.Ext2.Directory.Listing
import Ester.Ext2.Directory.Records
import Ester.Ext2.Directory.Split
import Ester.Ext2.Directory.Tiling
import Ester.Ext2.Directory.Walk
import Ester.Ext2.File
import Ester.Ext2.Image
import Ester.Ext2.Inode
import Ester.Ext2.InodeTable
import Ester.Ext2.InodeTable.RoundTrip
import Ester.Ext2.Layout
import Ester.Ext2.Lookup
import Ester.Ext2.Lookup.Glued
import Ester.Ext2.Lookup.Path
import Ester.Ext2.Lookup.Resolution
import Ester.Ext2.Lookup.Shown
import Ester.Ext2.Lookup.Terminators
import Ester.Ext2.Lookup.Validity
import Ester.Ext2.Mount
import Ester.Ext2.SampleImage
import Ester.Ext2.Session.Accounting
import Ester.Ext2.Session.Agreement
import Ester.Ext2.Session.Atomicity
import Ester.Ext2.Session.Calls
import Ester.Ext2.Session.Coherence
import Ester.Ext2.Session.Content
import Ester.Ext2.Session.CreatePath
import Ester.Ext2.Session.Creating
import Ester.Ext2.Session.DataWrites
import Ester.Ext2.Session.Descriptor
import Ester.Ext2.Session.FailedCreate
import Ester.Ext2.Session.Failing
import Ester.Ext2.Session.Growing
import Ester.Ext2.Session.Isolation
import Ester.Ext2.Session.Lifecycle
import Ester.Ext2.Session.LostTransfers
import Ester.Ext2.Session.NewEntry
import Ester.Ext2.Session.NewFile
import Ester.Ext2.Session.Overwrite
import Ester.Ext2.Session.PathBounds
import Ester.Ext2.Session.Persistence
import Ester.Ext2.Session.ReadMode
import Ester.Ext2.Session.RecordedSize
import Ester.Ext2.Session.Reporting
import Ester.Ext2.Session.Secrecy
import Ester.Ext2.Session.SectorCount
import Ester.Ext2.Session.SeekFrame
import Ester.Ext2.Session.SeekRead
import Ester.Ext2.Session.Seeking
import Ester.Ext2.Session.Step
import Ester.Ext2.Session.TreeGrowth
import Ester.Ext2.Session.Uninitialised
import Ester.Ext2.Session.Writing
import Ester.Ext2.Superblock
import Ester.Ext2.Types
import Ester.Kernel.Ascii
import Ester.Kernel.Elf64
import Ester.Kernel.Elf64.InPlace
import Ester.Kernel.Elf64.Rounds
import Ester.Kernel.Elf64.Segments
import Ester.Kernel.Entry
import Ester.Kernel.Interrupts
import Ester.Kernel.Interrupts.Boot
import Ester.Kernel.Interrupts.Service
import Ester.Kernel.Mem
import Ester.Kernel.Multiboot
import Ester.Kernel.Paging
import Ester.Kernel.Paging.BootCode
import Ester.Kernel.Paging.Bytes
import Ester.Kernel.Paging.Levels
import Ester.Kernel.Paging.Mapping
import Ester.Kernel.Paging.Tables
import Ester.Kernel.Paging.Tree
import Ester.Kernel.Printk
import Ester.Kernel.String
import Ester.Kernel.String.Order
import Ester.Kernel.String.Reverse
import Ester.Library.Bitmap
import Ester.Library.Buffer
import Ester.Library.Codec
import Ester.Library.Decimal
import Ester.Library.DepthFirst
import Ester.Library.FirstFit
import Ester.Library.Loop
import Ester.Library.Mask
import Ester.Library.PathWalk
import Ester.Library.Run
import Ester.Library.StaleSlots
import Ester.Pci
import Ester.Pci.Ports
import Ester.Pci.Recursive
import Ester.Pci.Scan
